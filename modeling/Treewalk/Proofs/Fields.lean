import Treewalk.Proofs.Grammar

/-! The fields of nodes, kind by kind, and the errors that come from them.

A kind of node is told by its layout: the fields that it has to have, what each has to hold, and the order in which they
are looked at. The error of a node is then the first error of its fields, and the error of a field is the one that its
value has on its own, with the field put in front of its path. -/
namespace Treewalk

namespace Document

inductive Role where
  | integer
  | text
  | truth
  | operator
  | parameter
  | parameters
  | term
  | terms
deriving DecidableEq, Repr

end Document

open Document

/-- The fields that a kind of node has beside its kind and its location, in the order in which they are looked at. -/
def Term.Kind.layout : Term.Kind → List (String × Role)
  | .int => [("value", .integer)]
  | .str => [("value", .text)]
  | .bool => [("value", .truth)]
  | .var => [("text", .text)]
  | .function => [("parameters", .parameters), ("value", .term)]
  | .call => [("callee", .term), ("arguments", .terms)]
  | .letIn => [("name", .parameter), ("value", .term), ("next", .term)]
  | .cond => [("condition", .term), ("then", .term), ("otherwise", .term)]
  | .binary => [("op", .operator), ("lhs", .term), ("rhs", .term)]
  | .tuple => [("first", .term), ("second", .term)]
  | .first => [("value", .term)]
  | .second => [("value", .term)]
  | .print => [("value", .term)]

namespace Document

variable {α β : Type}

def fault? : Except DecodeError α → Option DecodeError
  | .ok _ => none
  | .error e => some e

def itemsFault? (decode : Json → Except DecodeError α) (items : List Json) : Option DecodeError :=
  items.zipIdx.findSome? fun item => (fault? (decode item.1)).map (·.under (.index item.2))

def Role.fault? (l : Location) : Role → Json → Option DecodeError
  | .integer, v => Document.fault? (decodeInt l v)
  | .text, v => Document.fault? (decodeString l v)
  | .truth, v => Document.fault? (decodeBool l v)
  | .operator, v => Document.fault? (decodeOperator l v)
  | .parameter, v => Document.fault? (Parameter.ofJson v)
  | .parameters, .array items => itemsFault? Parameter.ofJson items
  | .parameters, other => some ⟨[], l, .mistyped .parameters other.shape⟩
  | .term, v => Document.fault? (Term.ofJson v)
  | .terms, .array items => itemsFault? Term.ofJson items
  | .terms, other => some ⟨[], l, .mistyped .terms other.shape⟩

/-- The error of a field: it is missing, or its value has an error on its own. -/
def fieldFault? (l : Location) (fields : List (String × Json)) (field : String × Role) : Option DecodeError :=
  match Json.get? field.1 fields with
  | none => some ⟨[], l, .missingField field.1⟩
  | some v => (field.2.fault? l v).map (·.under (.field field.1))

theorem fault?_eq_some {x : Except DecodeError α} {e : DecodeError} : fault? x = some e ↔ x = .error e := by
  cases x <;> simp [fault?]

theorem bind_ok {ε : Type} (a : α) (f : α → Except ε β) : (Except.ok a >>= f) = f a := rfl

theorem fault?_within (step : Step) (x : Except DecodeError α) :
    fault? (within step x) = (fault? x).map (·.under step) := by
  cases x <;> rfl

theorem fault?_bind_pure (x : Except DecodeError α) (f : α → β) : fault? (x >>= fun a => pure (f a)) = fault? x := by
  cases x <;> rfl

theorem fault?_decodeItems (decode : Json → Except DecodeError α) (position : Nat) (items : List Json) :
    fault? (decodeItems decode position items) =
      (items.zipIdx position).findSome? fun item => (fault? (decode item.1)).map (·.under (.index item.2)) := by
  induction items generalizing position with
  | nil => rfl
  | cons item rest ih =>
    rw [decodeItems, List.zipIdx_cons, List.findSome?_cons]
    cases hitem : decode item with
    | error e => rfl
    | ok a =>
      rw [← ih]
      exact fault?_bind_pure (decodeItems decode (position + 1) rest) (a :: ·)

theorem fault?_decodeParameters (l : Location) (v : Json) :
    fault? (decodeParameters l v) = Role.parameters.fault? l v := by
  cases v with
  | array items => exact fault?_decodeItems Parameter.ofJson 0 items
  | _ => rfl

theorem fault?_withField (l : Location) (name : String) (fields : List (String × Json)) (role : Role)
    {decode : (v : Json) → sizeOf v < sizeOf fields → Except DecodeError α}
    (hrole : ∀ v h, fault? (decode v h) = role.fault? l v) :
    fault? (withField l name fields decode) = fieldFault? l fields (name, role) := by
  unfold withField fieldFault?
  split
  · rename_i v hv
    rw [fault?_within, hrole]
    simp only [hv]
  · rename_i hv
    simp only [hv]
    rfl

/-- A node reads its fields one after the other, whatever they hold. -/
theorem fault?_withField_bind {l : Location} {name : String} {fields : List (String × Json)} {role : Role}
    {rest : List (String × Role)} {decode : (v : Json) → sizeOf v < sizeOf fields → Except DecodeError α}
    {next : α → Except DecodeError β} (hrole : ∀ v h, fault? (decode v h) = role.fault? l v)
    (hnext : ∀ a, fault? (next a) = rest.findSome? (fieldFault? l fields)) :
    fault? (withField l name fields decode >>= next) = ((name, role) :: rest).findSome? (fieldFault? l fields) := by
  have hfield := fault?_withField l name fields role hrole
  rw [List.findSome?_cons, ← hfield]
  cases withField (some l) name fields decode with
  | error e => rfl
  | ok a => exact hnext a

end Document

namespace Term

/-- The error of a node of a known kind is the first one of the fields that its kind asks for. -/
theorem fault?_ofJson_node {fields : List (String × Json)} {kind : Kind} {l : Location}
    (hkind : Json.get? "kind" fields = some (.string kind.name)) (hl : nodeLocation fields = .ok l) :
    fault? (Term.ofJson (.object fields)) = kind.layout.findSome? (fieldFault? l fields) := by
  have hterm (v : Json) (_ : sizeOf v < sizeOf fields) : fault? (Term.ofJson v) = Role.term.fault? l v := rfl
  rw [Term.ofJson, decodeKind_eq_ok.2 hkind, hl]
  simp only [bind_ok, Kind.ofName?_name]
  cases kind with
  | int => exact fault?_withField_bind (fun _ _ => rfl) fun _ => rfl
  | str => exact fault?_withField_bind (fun _ _ => rfl) fun _ => rfl
  | bool => exact fault?_withField_bind (fun _ _ => rfl) fun _ => rfl
  | var => exact fault?_withField_bind (fun _ _ => rfl) fun _ => rfl
  | function =>
    exact fault?_withField_bind (fun v _ => fault?_decodeParameters l v) fun _ =>
      fault?_withField_bind hterm fun _ => rfl
  | call =>
    refine fault?_withField_bind hterm fun _ => fault?_withField_bind ?_ fun _ => rfl
    intro v _
    cases v with
    | array items =>
      simp only [listOfJson_eq_decodeItems]
      exact fault?_decodeItems Term.ofJson 0 items
    | _ => rfl
  | letIn =>
    exact fault?_withField_bind (fun _ _ => rfl) fun _ =>
      fault?_withField_bind hterm fun _ => fault?_withField_bind hterm fun _ => rfl
  | cond =>
    exact fault?_withField_bind hterm fun _ =>
      fault?_withField_bind hterm fun _ => fault?_withField_bind hterm fun _ => rfl
  | binary =>
    exact fault?_withField_bind (fun _ _ => rfl) fun _ =>
      fault?_withField_bind hterm fun _ => fault?_withField_bind hterm fun _ => rfl
  | tuple => exact fault?_withField_bind hterm fun _ => fault?_withField_bind hterm fun _ => rfl
  | first => exact fault?_withField_bind hterm fun _ => rfl
  | second => exact fault?_withField_bind hterm fun _ => rfl
  | print => exact fault?_withField_bind hterm fun _ => rfl

end Term

end Treewalk

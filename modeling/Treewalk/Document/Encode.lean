import Treewalk.Json.Basic
import Treewalk.Term

/-! Programs as documents. Every node states its kind, its location and the fields of its kind, and the
fields stand in key order. -/
namespace Treewalk

def Location.toJson (l : Location) : Json :=
  .object [("end", .ofNat l.stop.toNat), ("filename", .string l.filename), ("start", .ofNat l.start.toNat)]

/-- A location on its own, with its fields in the order of their meaning. -/
def Location.toRecord (l : Location) : Json :=
  .object [("start", .ofNat l.start.toNat), ("end", .ofNat l.stop.toNat), ("filename", .string l.filename)]

def Parameter.toJson (p : Parameter) : Json :=
  .object [("location", p.location.toJson), ("text", .string p.name)]

namespace Term

mutual

def toJson : Term → Json
  | int value l =>
      .object [("kind", .string Kind.int.name), ("location", l.toJson), ("value", .ofInt value.toInt)]
  | str value l =>
      .object [("kind", .string Kind.str.name), ("location", l.toJson), ("value", .string value)]
  | bool value l =>
      .object [("kind", .string Kind.bool.name), ("location", l.toJson), ("value", .bool value)]
  | var name l =>
      .object [("kind", .string Kind.var.name), ("location", l.toJson), ("text", .string name)]
  | function parameters body l =>
      .object [("kind", .string Kind.function.name), ("location", l.toJson),
        ("parameters", .array (parameters.map Parameter.toJson)), ("value", toJson body)]
  | call callee arguments l =>
      .object [("arguments", .array (listToJson arguments)), ("callee", toJson callee),
        ("kind", .string Kind.call.name), ("location", l.toJson)]
  | letIn name value next l =>
      .object [("kind", .string Kind.letIn.name), ("location", l.toJson), ("name", name.toJson),
        ("next", toJson next), ("value", toJson value)]
  | cond condition whenTrue whenFalse l =>
      .object [("condition", toJson condition), ("kind", .string Kind.cond.name), ("location", l.toJson),
        ("otherwise", toJson whenFalse), ("then", toJson whenTrue)]
  | binary operator left right l =>
      .object [("kind", .string Kind.binary.name), ("lhs", toJson left), ("location", l.toJson),
        ("op", .string operator.name), ("rhs", toJson right)]
  | tuple a b l =>
      .object [("first", toJson a), ("kind", .string Kind.tuple.name), ("location", l.toJson),
        ("second", toJson b)]
  | first operand l =>
      .object [("kind", .string Kind.first.name), ("location", l.toJson), ("value", toJson operand)]
  | second operand l =>
      .object [("kind", .string Kind.second.name), ("location", l.toJson), ("value", toJson operand)]
  | print operand l =>
      .object [("kind", .string Kind.print.name), ("location", l.toJson), ("value", toJson operand)]

def listToJson : List Term → List Json
  | [] => []
  | t :: rest => toJson t :: listToJson rest

end

end Term

def Program.toJson (p : Program) : Json :=
  .object [("expression", p.expression.toJson), ("kind", .string "File"), ("location", p.location.toJson),
    ("name", .string p.name)]

end Treewalk

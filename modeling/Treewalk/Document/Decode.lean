import Treewalk.Document.Error
import Treewalk.Term

/-! Documents as programs.

A node is an object; its `kind` says which fields it needs, and all other fields are ignored. A node may
carry a location, which must not run backwards. Fields are looked at in a fixed order, so that the first
fault decides: the kind, the location, then the fields of the kind. -/
namespace Treewalk

open Document

namespace Document

/-- The result of a step inside a value, with errors put under the step. -/
def within {α : Type} (step : Step) (result : Except DecodeError α) : Except DecodeError α :=
  result.mapError (·.under step)

def refuse {α : Type} (location : Option Location) (problem : Problem) : Except DecodeError α :=
  .error ⟨[], location, problem⟩

def withField {α : Type} (location : Option Location) (name : String) (fields : List (String × Json))
    (decode : (value : Json) → sizeOf value < sizeOf fields → Except DecodeError α) :
    Except DecodeError α :=
  match h : Json.get? name fields with
  | some value => within (.field name) (decode value (Json.sizeOf_lt_of_get? h))
  | none => refuse location (.missingField name)

def decodeItems {α : Type} (decode : Json → Except DecodeError α) (position : Nat) :
    List Json → Except DecodeError (List α)
  | [] => .ok []
  | item :: rest => do
      let first ← within (.index position) (decode item)
      let others ← decodeItems decode (position + 1) rest
      return first :: others

def decodeOffset : Json → Except LocationFault UInt32
  | .number (.integer n) =>
      if 0 ≤ n && n ≤ 4294967295 then .ok (UInt32.ofNat n.toNat) else .error (.offsetOutOfRange n)
  | other => .error (.notOffset other.glimpse)

def decodeFilename : Json → Except LocationFault String
  | .string s => .ok s
  | other => .error (.notFilename other.glimpse)

def decodePart {α : Type} (decode : Json → Except LocationFault α) (name : String)
    (fields : List (String × Json)) : Except LocationFault (Option α) :=
  match Json.get? name fields with
  | some value => (decode value).map some
  | none => .ok none

def demandPart {α : Type} (name : String) : Option α → Except LocationFault α
  | some a => .ok a
  | none => .error (.missingField name)

/-- A location as an object or as an array of start, end and file name. The parts of an object are looked
at in key order; only then a missing one is noticed. -/
def decodeRange : Json → Except LocationFault Location
  | .object fields => do
      let stop ← decodePart decodeOffset "end" fields
      let filename ← decodePart decodeFilename "filename" fields
      let start ← decodePart decodeOffset "start" fields
      let start ← demandPart "start" start
      let stop ← demandPart "end" stop
      let filename ← demandPart "filename" filename
      return ⟨⟨start, stop⟩, filename⟩
  | .array [] => .error (.tooFewItems 0)
  | .array [start] => do
      let _ ← decodeOffset start
      .error (.tooFewItems 1)
  | .array [start, stop] => do
      let _ ← decodeOffset start
      let _ ← decodeOffset stop
      .error (.tooFewItems 2)
  | .array (start :: stop :: filename :: more) => do
      let start ← decodeOffset start
      let stop ← decodeOffset stop
      let filename ← decodeFilename filename
      if more.isEmpty then return ⟨⟨start, stop⟩, filename⟩
      else .error (.tooManyItems (3 + more.length))
  | other => .error (.notLocation other.glimpse)

def decodeLocation (json : Json) : Except LocationFault Location := do
  let location ← decodeRange json
  if location.toSpan.Ordered then return location
  else .error (.reversed location.start location.stop)

/-- The location that a node carries; without one it is unknown. -/
def nodeLocation (fields : List (String × Json)) : Except DecodeError Location :=
  match Json.get? "location" fields with
  | none => .ok .unknown
  | some .null => .ok .unknown
  | some value =>
      match decodeLocation value with
      | .ok location => .ok location
      | .error fault => within (.field "location") (refuse none (.badLocation fault))

def decodeInt (location : Location) : Json → Except DecodeError Int64
  | .number (.integer n) =>
      if -9223372036854775808 ≤ n && n ≤ 9223372036854775807 then .ok (Int64.ofInt n)
      else refuse location (.mistyped .integer .integer)
  | other => refuse location (.mistyped .integer other.shape)

def decodeString (location : Location) : Json → Except DecodeError String
  | .string s => .ok s
  | other => refuse location (.mistyped .string other.shape)

def decodeBool (location : Location) : Json → Except DecodeError Bool
  | .bool b => .ok b
  | other => refuse location (.mistyped .boolean other.shape)

def decodeOperator (location : Location) (json : Json) : Except DecodeError Operator := do
  let name ← decodeString location json
  match Operator.ofName? name with
  | some operator => return operator
  | none => refuse location (.unknownOperator name)

def decodeKind (fields : List (String × Json)) : Except DecodeError String :=
  match Json.get? "kind" fields with
  | some (.string name) => .ok name
  | some other => refuse none (.kindNotString other.shape)
  | none => refuse none (.missingField "kind")

end Document

def Parameter.ofJson : Json → Except DecodeError Parameter
  | .object fields => do
      let location ← nodeLocation fields
      let name ← withField location "text" fields fun v _ => decodeString location v
      return ⟨name, location⟩
  | other => refuse none (.mistyped .parameter other.shape)

def Document.decodeParameters (location : Location) : Json → Except DecodeError (List Parameter)
  | .array items => decodeItems Parameter.ofJson 0 items
  | other => refuse location (.mistyped .parameters other.shape)

mutual

def Term.ofJson (json : Json) : Except DecodeError Term :=
  match json with
  | .object fields => do
      let name ← decodeKind fields
      let location ← nodeLocation fields
      match Term.Kind.ofName? name with
      | none => refuse location (.unknownKind name)
      | some .int => do
          let value ← withField location "value" fields fun v _ => decodeInt location v
          return .int value location
      | some .str => do
          let value ← withField location "value" fields fun v _ => decodeString location v
          return .str value location
      | some .bool => do
          let value ← withField location "value" fields fun v _ => decodeBool location v
          return .bool value location
      | some .var => do
          let name ← withField location "text" fields fun v _ => decodeString location v
          return .var name location
      | some .function => do
          let parameters ← withField location "parameters" fields fun v _ => decodeParameters location v
          let body ← withField location "value" fields fun v _ => Term.ofJson v
          return .function parameters body location
      | some .call => do
          let callee ← withField location "callee" fields fun v _ => Term.ofJson v
          let arguments ← withField location "arguments" fields fun v _ =>
            match v with
            | .array items => Term.listOfJson 0 items
            | other => refuse location (.mistyped .terms other.shape)
          return .call callee arguments location
      | some .letIn => do
          let name ← withField location "name" fields fun v _ => Parameter.ofJson v
          let value ← withField location "value" fields fun v _ => Term.ofJson v
          let next ← withField location "next" fields fun v _ => Term.ofJson v
          return .letIn name value next location
      | some .cond => do
          let condition ← withField location "condition" fields fun v _ => Term.ofJson v
          let whenTrue ← withField location "then" fields fun v _ => Term.ofJson v
          let whenFalse ← withField location "otherwise" fields fun v _ => Term.ofJson v
          return .cond condition whenTrue whenFalse location
      | some .binary => do
          let operator ← withField location "op" fields fun v _ => decodeOperator location v
          let left ← withField location "lhs" fields fun v _ => Term.ofJson v
          let right ← withField location "rhs" fields fun v _ => Term.ofJson v
          return .binary operator left right location
      | some .tuple => do
          let first ← withField location "first" fields fun v _ => Term.ofJson v
          let second ← withField location "second" fields fun v _ => Term.ofJson v
          return .tuple first second location
      | some .first => do
          let operand ← withField location "value" fields fun v _ => Term.ofJson v
          return .first operand location
      | some .second => do
          let operand ← withField location "value" fields fun v _ => Term.ofJson v
          return .second operand location
      | some .print => do
          let operand ← withField location "value" fields fun v _ => Term.ofJson v
          return .print operand location
  | other => refuse none (.mistyped .term other.shape)
termination_by sizeOf json
decreasing_by
  all_goals
    simp only [Json.object.sizeOf_spec, Json.array.sizeOf_spec] at *
    omega

/-- Terms, counted from a position on. This is `decodeItems` of `Term.ofJson`, which the recursion between the two
does not let it call. -/
def Term.listOfJson (position : Nat) (items : List Json) : Except DecodeError (List Term) :=
  match items with
  | [] => .ok []
  | item :: rest => do
      let term ← within (.index position) (Term.ofJson item)
      let terms ← Term.listOfJson (position + 1) rest
      return term :: terms
termination_by sizeOf items
decreasing_by
  all_goals
    simp only [List.cons.sizeOf_spec]
    omega

end

namespace Document

/-- A file node need not say that it is one, but it must not say anything else. -/
def checkFileKind (fields : List (String × Json)) : Except DecodeError Unit :=
  match Json.get? "kind" fields with
  | none => .ok ()
  | some .null => .ok ()
  | some (.string "File") => .ok ()
  | some other => within (.field "kind") (refuse none (.mistyped .fileKind other.shape))

def decodeName (location : Location) (fields : List (String × Json)) : Except DecodeError String :=
  match Json.get? "name" fields with
  | none => .ok ""
  | some .null => .ok ""
  | some value => within (.field "name") (decodeString location value)

end Document

def Program.ofJson : Json → Except DecodeError Program
  | .object fields => do
      checkFileKind fields
      let location ← nodeLocation fields
      let name ← decodeName location fields
      let expression ← withField none "expression" fields fun v _ => Term.ofJson v
      return ⟨name, expression, location⟩
  | other => refuse none (.mistyped .file other.shape)

namespace Document

def readJson (bytes : ByteArray) : Except DecodeError Json :=
  (Json.read bytes).mapError fun e => ⟨[], none, .unreadable e⟩

end Document

def Term.parse (bytes : ByteArray) : Except DecodeError Term := do
  let json ← readJson bytes
  Term.ofJson json

def Program.parse (bytes : ByteArray) : Except DecodeError Program := do
  let json ← readJson bytes
  Program.ofJson json

end Treewalk

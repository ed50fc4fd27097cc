import Treewalk.Json.Reader
import Treewalk.Diagnostic.Basic

/-! Why a document is refused, and where in it.

The place is a path from the root of the document. An error found inside a field or an item is raised
with a path that starts there and is put under the field or the item on its way out. -/
namespace Treewalk

namespace Document

/-- A step from a JSON value to one inside it. -/
inductive Step where
  | field (name : String)
  | index (position : Nat)
deriving DecidableEq, Repr

def Step.text : Step → String
  | field name => "/" ++ name
  | index position => "/" ++ position.repr

def pathText (path : List Step) : String := String.join (path.map Step.text)

inductive Expectation where
  | file
  | fileKind
  | term
  | parameter
  | integer
  | string
  | boolean
  | terms
  | parameters
deriving DecidableEq, Repr

def Expectation.text : Expectation → String
  | file => "a file object"
  | fileKind => "the file kind `File`"
  | term => "a term object"
  | parameter => "a parameter object"
  | integer => "a 64-bit integer"
  | string => "a string"
  | boolean => "a boolean"
  | terms => "an array of terms"
  | parameters => "an array of parameters"

inductive LocationFault where
  | notLocation (found : Json.Glimpse)
  | notOffset (found : Json.Glimpse)
  | offsetOutOfRange (value : Int)
  | notFilename (found : Json.Glimpse)
  | missingField (name : String)
  | tooFewItems (count : Nat)
  | tooManyItems (count : Nat)
  | reversed (start stop : UInt32)
deriving DecidableEq, Repr

def LocationFault.text : LocationFault → String
  | notLocation found => "invalid type: " ++ found.text ++ ", expected struct Location"
  | notOffset found => "invalid type: " ++ found.text ++ ", expected u32"
  | offsetOutOfRange value => "invalid value: integer `" ++ value.repr ++ "`, expected u32"
  | notFilename found => "invalid type: " ++ found.text ++ ", expected a string"
  | missingField name => "missing field `" ++ name ++ "`"
  | tooFewItems count => "invalid length " ++ count.repr ++ ", expected struct Location with 3 elements"
  | tooManyItems count => "invalid length " ++ count.repr ++ ", expected fewer elements in array"
  | reversed start stop => "`start` (" ++ start.toNat.repr ++ ") is after `end` (" ++ stop.toNat.repr ++ ")"

inductive Problem where
  | unreadable (error : Json.ReadError)
  | missingField (name : String)
  | mistyped (expected : Expectation) (found : Json.Shape)
  | kindNotString (found : Json.Shape)
  | unknownOperator (name : String)
  | badLocation (fault : LocationFault)
  | unknownKind (name : String)
deriving DecidableEq, Repr

/-- A problem in words; for an unknown kind, the kind. -/
def Problem.detail : Problem → String
  | unreadable error => error.message
  | missingField name => "missing field `" ++ name ++ "`"
  | mistyped expected found => "expected " ++ expected.text ++ ", found " ++ found.text
  | kindNotString found => "`kind` must be a string, found " ++ found.text
  | unknownOperator name => "unknown binary operator `" ++ name ++ "`"
  | badLocation fault => fault.text
  | unknownKind name => name

/-- An unknown kind has a code of its own. -/
def Problem.code : Problem → ErrorCode
  | unknownKind _ => .unknownNodeKind
  | _ => .malformedDocument

end Document

open Document

/-- A document is refused. The location is that of the node at fault, once it has been read. -/
structure DecodeError where
  path : List Step
  location : Option Location
  problem : Problem
deriving DecidableEq, Repr

namespace DecodeError

/-- The same error, seen from a value that holds the place one step further in. -/
def under (step : Step) (e : DecodeError) : DecodeError := { e with path := step :: e.path }

def pathText (e : DecodeError) : String := Document.pathText e.path

def code (e : DecodeError) : ErrorCode := e.problem.code

def message (e : DecodeError) : String :=
  let place := if e.path.isEmpty then "/" else e.pathText
  match e.problem with
  | .unknownKind name => "unknown node kind `" ++ name ++ "` at `" ++ place ++ "`"
  | problem => "malformed document at `" ++ place ++ "`: " ++ problem.detail

def help? (e : DecodeError) : Option String :=
  match e.problem with
  | .unknownKind _ =>
      some "expected one of Int, Str, Bool, Var, Function, Call, Let, If, Binary, Tuple, First, Second, Print"
  | _ => none

/-- The report. It points to a place only if the file is known. -/
def diagnostic (e : DecodeError) : Diagnostic :=
  let location := e.location.filter (!·.filename.isEmpty)
  { kind := .decode
    code := some e.code
    message := e.message
    location := location
    labels := location.toList.map fun l => ⟨l, e.code.description⟩
    notes := []
    help := e.help? }

end DecodeError

end Treewalk

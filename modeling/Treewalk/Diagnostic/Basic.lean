import Treewalk.Location

/-! Reports about a document or a run: what went wrong, where, and what may help. -/
namespace Treewalk

inductive ErrorCode where
  | malformedDocument
  | unknownNodeKind
  | unboundVariable
  | arityMismatch
  | typeMismatch
  | divisionByZero
  | stackDepthExceeded
deriving DecidableEq, Repr

namespace ErrorCode

def all : List ErrorCode :=
  [malformedDocument, unknownNodeKind, unboundVariable, arityMismatch, typeMismatch, divisionByZero,
    stackDepthExceeded]

def name : ErrorCode → String
  | malformedDocument => "MalformedDocument"
  | unknownNodeKind => "UnknownNodeKind"
  | unboundVariable => "UnboundVariable"
  | arityMismatch => "ArityMismatch"
  | typeMismatch => "TypeMismatch"
  | divisionByZero => "DivisionByZero"
  | stackDepthExceeded => "StackDepthExceeded"

def text : ErrorCode → String
  | malformedDocument => "E0100"
  | unknownNodeKind => "E0101"
  | unboundVariable => "E0200"
  | arityMismatch => "E0201"
  | typeMismatch => "E0202"
  | divisionByZero => "E0203"
  | stackDepthExceeded => "E0204"

def description : ErrorCode → String
  | malformedDocument => "the document does not have the expected shape"
  | unknownNodeKind => "unknown node kind"
  | unboundVariable => "cannot find value in this scope"
  | arityMismatch => "wrong number of arguments"
  | typeMismatch => "mismatched types"
  | divisionByZero => "attempt to divide by zero"
  | stackDepthExceeded => "evaluation nested too deeply"

def ofName? (name : String) : Option ErrorCode := all.find? (·.name = name)

end ErrorCode

structure Label where
  location : Location
  message : String
deriving DecidableEq, Repr

namespace Diagnostic

inductive Kind where
  | decode
  | eval
deriving DecidableEq, Repr

def Kind.name : Kind → String
  | decode => "Decode"
  | eval => "Eval"

/-- How bad it is: every report is about an error. -/
def severity : String := "error"

end Diagnostic

/-- A report. A location is missing if the error does not belong to a node. -/
structure Diagnostic where
  kind : Diagnostic.Kind
  code : Option ErrorCode
  message : String
  location : Option Location
  labels : List Label
  notes : List String
  help : Option String
deriving DecidableEq, Repr

namespace Diagnostic

def filename? (d : Diagnostic) : Option String :=
  (d.location.map (·.filename)).filter (!·.isEmpty)

/-- The labels that can be drawn over a source: their ranges do not run backwards. -/
def drawableLabels (d : Diagnostic) : List Label :=
  d.labels.filter fun l => decide l.location.toSpan.Ordered

end Diagnostic

end Treewalk

import Treewalk.Diagnostic.Basic

/-! Reports as plain lines, without the source.

The first line holds severity, code and message; then come the location, the labels that stand elsewhere,
the notes and the help text. -/
namespace Treewalk.Diagnostic

def codeText (d : Diagnostic) : String :=
  match d.code with
  | some code => "[" ++ code.text ++ "]"
  | none => ""

def locationLine (d : Diagnostic) : String :=
  match d.location with
  | some l => "  --> " ++ l.text ++ "\n"
  | none => ""

/-- The labels that do not stand at the report's own location. -/
def strayLabels (d : Diagnostic) : List Label :=
  d.labels.filter fun l => decide (d.location ≠ some l.location)

def labelLine (l : Label) : String := "  --> " ++ l.location.text ++ ": " ++ l.message ++ "\n"

def noteLine (note : String) : String := "  = note: " ++ note ++ "\n"

def helpLine (d : Diagnostic) : String :=
  match d.help with
  | some help => "  = help: " ++ help ++ "\n"
  | none => ""

def plain (d : Diagnostic) : String :=
  severity ++ d.codeText ++ ": " ++ d.message ++ "\n" ++ d.locationLine ++
    String.join (d.strayLabels.map labelLine) ++ String.join (d.notes.map noteLine) ++ d.helpLine

end Treewalk.Diagnostic

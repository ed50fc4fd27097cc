import Treewalk.Text.Lines

/-! Where printed lines go. -/
namespace Treewalk

/-- The standard output, with all that has gone there, or a buffer. What has been written to the standard output is
out of reach: only a buffer gives its text back. -/
inductive Printer where
  | standard (written : String)
  | buffer (text : String)
deriving DecidableEq, Repr

namespace Printer

def fresh : Printer := .buffer ""

def terminal : Printer := .standard ""

def println : Printer → String → Printer
  | standard written, line => standard (written ++ line ++ "\n")
  | buffer text, line => buffer (text ++ line ++ "\n")

def output : Printer → String
  | standard _ => ""
  | buffer text => text

/-- What a reader of the standard output has seen. -/
def written : Printer → String
  | standard written => written
  | buffer _ => ""

def lines (p : Printer) : List String := Text.lines p.output

/-- Hands over what has been kept and starts again. -/
def take : Printer → String × Printer
  | standard written => ("", standard written)
  | buffer text => (text, fresh)

end Printer

end Treewalk

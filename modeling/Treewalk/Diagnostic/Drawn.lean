import Treewalk.Diagnostic.Basic
import Treewalk.Text.Blank
import Treewalk.Text.Colour

/-! Reports drawn over a line of the source, in colour.

The line that a label begins on is shown with the labelled characters marked; under it a ruler spans the
label, and from the ruler's middle an arrow leads to the label's message. A label that the line does not
hold leaves an empty line in their place. Offsets count characters. -/
namespace Treewalk.Diagnostic

def frameColour : List Char → List Char := Text.paletteColour 246

def sideColour : List Char → List Char := Text.paletteColour 240

def labelColour : List Char → List Char := Text.paletteColour 201

def sourceColour : List Char → List Char := Text.paletteColour 249

def helpColour : List Char → List Char := Text.paletteColour 115

/-- A line of a source: its number, the offset at which it begins, and its characters with its end. -/
structure SourceLine where
  number : Nat
  offset : Nat
  characters : List Char
deriving DecidableEq, Repr

def SourceLine.stop (line : SourceLine) : Nat := line.offset + line.characters.length

/-- The characters that end a line: line feed, vertical tab, form feed, carriage return, next line, and
the separators of lines and paragraphs. -/
def isLineEnd (c : Char) : Bool :=
  c = '\n' || c = '\x0b' || c = '\x0c' || c = '\r' || c = '\u0085' || c = '\u2028' || c = '\u2029'

/-- Cuts a source into lines, each with the character that ends it; a carriage return and a line feed end
one line together. The line under way is given backwards. -/
def sourceLinesFrom (number offset : Nat) (current : List Char) : List Char → List SourceLine
  | [] => if current.isEmpty then [] else [⟨number, offset, current.reverse⟩]
  | '\r' :: '\n' :: rest =>
      ⟨number, offset, ('\n' :: '\r' :: current).reverse⟩ ::
        sourceLinesFrom (number + 1) (offset + current.length + 2) [] rest
  | c :: rest =>
      if isLineEnd c then
        ⟨number, offset, (c :: current).reverse⟩ ::
          sourceLinesFrom (number + 1) (offset + current.length + 1) [] rest
      else sourceLinesFrom number offset (c :: current) rest

def sourceLines (source : List Char) : List SourceLine := sourceLinesFrom 1 0 [] source

/-- The last line that begins at or before an offset. -/
def lineAt? (source : List Char) (offset : Nat) : Option SourceLine :=
  (sourceLines source).reverse.find? fun line => decide (line.offset ≤ offset)

structure Drawing where
  line : SourceLine
  start : Nat
  stop : Nat
  filename : String
  message : String

namespace Drawing

def covers (d : Drawing) (offset : Nat) : Bool := decide (d.start ≤ offset) && decide (offset < d.stop)

/-- The whole label lies on the line. -/
def isHeld (d : Drawing) : Bool := decide (d.line.offset ≤ d.start) && decide (d.stop ≤ d.line.stop)

def digits (d : Drawing) : List Char := Nat.toDigits 10 d.line.number

/-- Blanks as wide as the line number with a blank on both sides. -/
def indent (d : Drawing) : List Char := List.replicate (d.digits.length + 2) ' '

def middle (d : Drawing) : Nat := (d.start + d.stop) / 2 - d.line.offset

def columns (d : Drawing) : List Nat := List.range (d.stop - d.line.offset + 2)

def side (d : Drawing) : List Char :=
  ' ' :: sideColour (List.replicate (d.digits.length + 1) ' ' ++ ['│']) ++ [' ']

def header (d : Drawing) : List Char :=
  d.indent ++ frameColour ['╭'] ++ frameColour ['─'] ++ frameColour ['['] ++ d.filename.toList ++
    ':' :: d.digits ++ ':' :: Nat.toDigits 10 (d.start - d.line.offset + 1) ++ frameColour [']'] ++ ['\n']

def gap (d : Drawing) : List Char := d.indent ++ frameColour ['│'] ++ ['\n']

def character (d : Drawing) (c : Char) (offset : Nat) : List Char :=
  let shown := [if Text.isWhite c then ' ' else c]
  if d.covers offset then labelColour shown else sourceColour shown

def sourceText (d : Drawing) : List Char :=
  let shown := (Text.dropWhiteEnd d.line.characters).zipIdx d.line.offset
  ' ' :: frameColour (d.digits ++ [' ', '│']) ++ ' ' ::
    shown.flatMap (fun (c, offset) => d.character c offset) ++ ['\n']

def rulerColumn (d : Drawing) (column : Nat) : List Char :=
  let covered := d.covers (d.line.offset + column)
  if column = d.middle then labelColour [if covered then '┬' else '│']
  else if covered then labelColour ['─']
  else [' ']

def arrowColumn (d : Drawing) (column : Nat) : List Char :=
  if column < d.middle then [' ']
  else labelColour [if column = d.middle then '╰' else '─']

def ruler (d : Drawing) : List Char := d.side ++ d.columns.flatMap d.rulerColumn ++ ['\n']

def arrow (d : Drawing) : List Char :=
  d.side ++ d.columns.flatMap d.arrowColumn ++ ' ' :: d.message.toList ++ ['\n']

/-- The line with its ruler and arrow, or an empty line if the label reaches beyond it. -/
def body (d : Drawing) : List Char :=
  if d.isHeld then d.sourceText ++ d.ruler ++ d.arrow else d.side ++ ['\n']

def helpText (d : Drawing) : Option String → List Char
  | some help =>
      d.side ++ '\n' :: d.side ++ helpColour ['H', 'e', 'l', 'p'] ++ ':' :: ' ' :: help.toList ++ ['\n']
  | none => []

def footer (d : Drawing) : List Char :=
  frameColour (List.replicate (d.digits.length + 2) '─' ++ ['╯']) ++ ['\n']

def text (d : Drawing) (help : Option String) : List Char :=
  d.header ++ d.gap ++ d.body ++ d.helpText help ++ d.footer

end Drawing

def drawing? (source : List Char) (filename : String) (label : Label) : Option Drawing :=
  let start := label.location.start.toNat
  let stop := label.location.stop.toNat
  if source.length < start || (start < stop && source.length < stop - 1) then none
  else (lineAt? source start).map fun line => ⟨line, start, stop, filename, label.message⟩

def title (d : Diagnostic) : List Char :=
  let code := match d.code with
    | some code => "[" ++ code.text ++ "] "
    | none => ""
  Text.basicColour Text.red (code ++ "Error:").toList ++ ' ' :: d.message.toList ++ ['\n']

/-- A report over its source. A label outside the source leaves the first line only. -/
def drawn (d : Diagnostic) (source : String) : String :=
  let filename := d.filename?.getD "<input>"
  let picture := match d.drawableLabels with
    | label :: _ =>
        match drawing? source.toList filename label with
        | some drawing => drawing.text d.help
        | none => []
    | [] => []
  String.ofList (d.title ++ picture)

end Treewalk.Diagnostic

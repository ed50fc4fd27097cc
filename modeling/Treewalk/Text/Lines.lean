/-! Cutting text into lines.

A line ends at a line feed; text behind the last line feed is a line of its own unless it is empty. A
carriage return right before the line feed belongs to the end of the line, not to the line. -/
namespace Treewalk.Text

/-- Drops one carriage return from the end of a line, given backwards. -/
def dropReturn : List Char → List Char
  | '\r' :: rest => rest
  | line => line

/-- The lines of a text, with the line under way given backwards. -/
def linesFrom (current : List Char) : List Char → List (List Char)
  | [] => if current.isEmpty then [] else [current.reverse]
  | c :: rest =>
      if c = '\n' then (dropReturn current).reverse :: linesFrom [] rest
      else linesFrom (c :: current) rest

def lines (text : String) : List String := (linesFrom [] text.toList).map String.ofList

end Treewalk.Text

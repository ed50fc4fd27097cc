/-! Where a piece of a program stands in its source text: a range of byte offsets inside a named file.

Locations are carried along for reports only. A range may be given backwards; `Span.Ordered` singles
out those that are not. -/
namespace Treewalk

/-- A range of byte offsets. `stop` is the first offset behind the range. -/
structure Span where
  start : UInt32
  stop : UInt32
deriving DecidableEq, Repr

namespace Span

def zero : Span := ⟨0, 0⟩

instance : Inhabited Span := ⟨zero⟩

/-- The range between two offsets of any size; an offset that does not fit becomes the greatest one. -/
def ofNat (start stop : Nat) : Span := ⟨UInt32.ofNatClamp start, UInt32.ofNatClamp stop⟩

def Ordered (s : Span) : Prop := s.start ≤ s.stop

instance (s : Span) : Decidable s.Ordered := inferInstanceAs (Decidable (s.start ≤ s.stop))

/-- Number of bytes covered; none for a backward range. -/
def length (s : Span) : Nat := s.stop.toNat - s.start.toNat

def isEmpty (s : Span) : Bool := decide (s.stop ≤ s.start)

def text (s : Span) : String := s.start.toNat.repr ++ ".." ++ s.stop.toNat.repr

def startText (s : Span) : String := "BytePos(" ++ s.start.toNat.repr ++ ")"

end Span

/-- A range inside a file. An empty file name stands for an unknown file. -/
structure Location extends Span where
  filename : String
deriving DecidableEq, Repr

namespace Location

/-- The location of a node that carries none. -/
def unknown : Location := ⟨Span.zero, ""⟩

instance : Inhabited Location := ⟨unknown⟩

def rawText (l : Location) : String := l.filename ++ ":" ++ l.toSpan.text

/-- File name and offsets for a reader, who sees a placeholder for an unknown file. -/
def text (l : Location) : String :=
  (if l.filename.isEmpty then "<unknown>" else l.filename) ++ ":" ++ l.toSpan.text

end Location

end Treewalk

/-! Text between double quotes, as values and unexpected strings are shown to a reader.

A quote and a backslash are escaped, the common control characters have a letter each, and every other
control character is written by its code. All other characters stand for themselves: marks that attach to the
character before them, and characters that cannot be printed, are not told apart from the rest, and nothing
in the theory of quoted text hangs on this choice. -/
namespace Treewalk.Text

def hexadecimal (n : Nat) : List Char := Nat.toDigits 16 n

def isControl (c : Char) : Bool :=
  decide (c.toNat < 0x20) || (decide (0x7f ≤ c.toNat) && decide (c.toNat < 0xa0))

def escapeQuoted (c : Char) : List Char :=
  if c = '"' then ['\\', '"']
  else if c = '\\' then ['\\', '\\']
  else if c = '\n' then ['\\', 'n']
  else if c = '\r' then ['\\', 'r']
  else if c = '\t' then ['\\', 't']
  else if c.toNat = 0 then ['\\', '0']
  else if isControl c then ['\\', 'u', '\x7b'] ++ hexadecimal c.toNat ++ ['\x7d']
  else [c]

def quoted (s : String) : String := String.ofList ('"' :: s.toList.flatMap escapeQuoted ++ ['"'])

end Treewalk.Text

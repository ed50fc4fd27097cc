/-! Text in colour, by the control sequences of a terminal. Every coloured text switches back at its end. -/
namespace Treewalk.Text

def escape : Char := Char.ofNat 0x1b

def plainAgain : List Char := [escape, '[', '0', 'm']

def basicColour (n : Nat) (text : List Char) : List Char :=
  escape :: '[' :: (Nat.toDigits 10 n ++ 'm' :: (text ++ plainAgain))

def paletteColour (n : Nat) (text : List Char) : List Char :=
  escape :: '[' :: '3' :: '8' :: ';' :: '5' :: ';' :: (Nat.toDigits 10 n ++ 'm' :: (text ++ plainAgain))

def red : Nat := 31

def green : Nat := 32

def blue : Nat := 34

def coloured (colour : Nat) (text : String) : String := String.ofList (basicColour colour text.toList)

end Treewalk.Text

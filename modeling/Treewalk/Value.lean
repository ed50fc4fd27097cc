import Treewalk.Term.Equality
import Treewalk.Text.Quoted

/-! What terms evaluate to. -/
namespace Treewalk

/-- A value. A function is kept as it was written and only ever runs through a call. -/
inductive Value where
  | int (value : Int64)
  | str (value : String)
  | bool (value : Bool)
  | tuple (first second : Value)
  | function (value : Function)
deriving DecidableEq, Repr

namespace Value

inductive Kind where
  | int
  | str
  | bool
  | tuple
  | function
deriving DecidableEq, Repr

def Kind.name : Kind → String
  | int => "Int"
  | str => "Str"
  | bool => "Bool"
  | tuple => "Tuple"
  | function => "Function"

def kind : Value → Kind
  | int _ => .int
  | str _ => .str
  | bool _ => .bool
  | tuple _ _ => .tuple
  | function _ => .function

def int? : Value → Option Int64
  | int n => some n
  | _ => none

def str? : Value → Option String
  | str s => some s
  | _ => none

def decimal (n : Int64) : String := n.toInt.repr

def boolText (b : Bool) : String := if b then "true" else "false"

/-- A value as a program prints it: strings bare, pairs without blanks, functions without their contents. -/
def text : Value → String
  | int n => decimal n
  | str s => s
  | bool b => boolText b
  | tuple a b => "(" ++ a.text ++ "," ++ b.text ++ ")"
  | function _ => "<#closure>"

/-- A value as a programmer inspects it, given how strings are quoted. Functions show their arity. -/
def debugTextWith (quote : String → String) : Value → String
  | int n => decimal n
  | str s => quote s
  | bool b => boolText b
  | tuple a b => "(" ++ a.debugTextWith quote ++ ", " ++ b.debugTextWith quote ++ ")"
  | function f => "<function/" ++ f.arity.repr ++ ">"

def debugText (v : Value) : String := v.debugTextWith Text.quoted

/-- Equality as values are compared: by structure, and a function equals nothing, not even itself. -/
def equal : Value → Value → Bool
  | int a, int b => decide (a = b)
  | str a, str b => decide (a = b)
  | bool a, bool b => decide (a = b)
  | tuple a b, tuple c d => equal a c && equal b d
  | _, _ => false

end Value

end Treewalk

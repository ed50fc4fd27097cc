import Treewalk.Number.Shortest
import Treewalk.Text.Quoted

/-! JSON values.

The fields of an object are kept in increasing order of their keys, with no key twice; `setField` is how
the reader builds them, so that the last of several fields with one key wins. What `get?` finds in an
object is smaller than the object, and recursion over documents rests on that. -/
namespace Treewalk

/-- Integers are kept apart from all other numbers: `1` is an integer, `1.0` and `1e2` are not. -/
inductive Json.Number where
  | integer (value : Int)
  | float (value : Number.Binary64)
deriving DecidableEq, Repr

inductive Json where
  | null
  | bool (value : Bool)
  | number (value : Json.Number)
  | string (value : String)
  | array (items : List Json)
  | object (fields : List (String × Json))
deriving Repr, Inhabited

namespace Json

inductive Shape where
  | null
  | boolean
  | integer
  | float
  | string
  | array
  | object
deriving DecidableEq, Repr

def Shape.text : Shape → String
  | null => "null"
  | boolean => "a boolean"
  | integer => "an integer"
  | float => "a number"
  | string => "a string"
  | array => "an array"
  | object => "an object"

def shape : Json → Shape
  | null => .null
  | bool _ => .boolean
  | number (.integer _) => .integer
  | number (.float _) => .float
  | string _ => .string
  | array _ => .array
  | object _ => .object

/-- A value that stands where another was wanted, in as much detail as a report gives. -/
inductive Glimpse where
  | null
  | boolean (value : Bool)
  | integer (value : Int)
  | float (value : Treewalk.Number.Binary64)
  | string (value : String)
  | array
  | object
deriving DecidableEq, Repr

def glimpse : Json → Glimpse
  | null => .null
  | bool b => .boolean b
  | number (.integer n) => .integer n
  | number (.float x) => .float x
  | string s => .string s
  | array _ => .array
  | object _ => .object

def Glimpse.text : Glimpse → String
  | null => "null"
  | boolean b => "boolean `" ++ (if b then "true" else "false") ++ "`"
  | integer n => "integer `" ++ n.repr ++ "`"
  | float x => "floating point `" ++ x.text ++ "`"
  | string s => "string " ++ Text.quoted s
  | array => "sequence"
  | object => "map"

/-- The value of the first field with a key. -/
def get? (key : String) : List (String × Json) → Option Json
  | [] => none
  | (k, v) :: rest => if k = key then some v else get? key rest

theorem sizeOf_lt_of_get? {key : String} {fields : List (String × Json)} {value : Json}
    (h : get? key fields = some value) : sizeOf value < sizeOf fields := by
  induction fields with
  | nil => simp [get?] at h
  | cons entry rest ih =>
    obtain ⟨k, v⟩ := entry
    simp only [get?] at h
    simp only [List.cons.sizeOf_spec, Prod.mk.sizeOf_spec]
    split at h
    · simp only [Option.some.injEq] at h
      subst h
      omega
    · have := ih h
      omega

/-- Sets a field, keeping the fields in key order; an older field with the key is replaced. -/
def setField (key : String) (value : Json) : List (String × Json) → List (String × Json)
  | [] => [(key, value)]
  | (k, v) :: rest =>
      if key < k then (key, value) :: (k, v) :: rest
      else if key = k then (key, value) :: rest
      else (k, v) :: setField key value rest

def ofInt (n : Int) : Json := .number (.integer n)

def ofNat (n : Nat) : Json := .number (.integer n)

end Json

end Treewalk

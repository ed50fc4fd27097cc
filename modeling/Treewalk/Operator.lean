/-! The binary operators of the language. -/
namespace Treewalk

inductive Operator where
  | add
  | sub
  | mul
  | div
  | rem
  | eq
  | neq
  | lt
  | gt
  | lte
  | gte
  | and
  | or
deriving DecidableEq, Repr

namespace Operator

def all : List Operator := [add, sub, mul, div, rem, eq, neq, lt, gt, lte, gte, and, or]

/-- The name that documents use. -/
def name : Operator → String
  | add => "Add"
  | sub => "Sub"
  | mul => "Mul"
  | div => "Div"
  | rem => "Rem"
  | eq => "Eq"
  | neq => "Neq"
  | lt => "Lt"
  | gt => "Gt"
  | lte => "Lte"
  | gte => "Gte"
  | and => "And"
  | or => "Or"

def symbol : Operator → String
  | add => "+"
  | sub => "-"
  | mul => "*"
  | div => "/"
  | rem => "%"
  | eq => "=="
  | neq => "!="
  | lt => "<"
  | gt => ">"
  | lte => "<="
  | gte => ">="
  | and => "&&"
  | or => "||"

/-- The operator of a name, which has to be spelled exactly. -/
def ofName? (name : String) : Option Operator := all.find? (·.name = name)

theorem mem_all (o : Operator) : o ∈ all := by cases o <;> decide

theorem ofName?_name (o : Operator) : ofName? o.name = some o := by cases o <;> decide

theorem name_of_ofName? {name : String} {o : Operator} (h : ofName? name = some o) : o.name = name := by
  simpa using List.find?_some h

theorem name_inj {o o' : Operator} : o.name = o'.name ↔ o = o' := by
  constructor
  · intro h
    simpa [ofName?_name] using congrArg ofName? h
  · rintro rfl
    rfl

end Operator

end Treewalk

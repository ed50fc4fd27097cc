import Treewalk.Location
import Treewalk.Operator

/-! Programs as trees of terms, each with its location.

`Term.children` lists the direct subterms in the order of the document. `Term.nodeCount` counts nodes with
a stack of the terms still to be visited; `Term.nodeCount_eq_size` says that it counts every node once. -/
namespace Treewalk

/-- A name that a function takes or a binding gives. -/
structure Parameter where
  name : String
  location : Location
deriving DecidableEq, Repr

inductive Term where
  | int (value : Int64) (location : Location)
  | str (value : String) (location : Location)
  | bool (value : Bool) (location : Location)
  | var (name : String) (location : Location)
  | function (parameters : List Parameter) (body : Term) (location : Location)
  | call (callee : Term) (arguments : List Term) (location : Location)
  /-- Binds a name for the term that comes next. -/
  | letIn (name : Parameter) (value next : Term) (location : Location)
  | cond (condition whenTrue whenFalse : Term) (location : Location)
  | binary (operator : Operator) (left right : Term) (location : Location)
  | tuple (first second : Term) (location : Location)
  | first (operand : Term) (location : Location)
  | second (operand : Term) (location : Location)
  | print (operand : Term) (location : Location)
deriving Repr, Inhabited

structure Function where
  parameters : List Parameter
  body : Term
deriving Repr

def Function.arity (f : Function) : Nat := f.parameters.length

namespace Term

inductive Kind where
  | int
  | str
  | bool
  | var
  | function
  | call
  | letIn
  | cond
  | binary
  | tuple
  | first
  | second
  | print
deriving DecidableEq, Repr

namespace Kind

def all : List Kind :=
  [int, str, bool, var, function, call, letIn, cond, binary, tuple, first, second, print]

def name : Kind → String
  | int => "Int"
  | str => "Str"
  | bool => "Bool"
  | var => "Var"
  | function => "Function"
  | call => "Call"
  | letIn => "Let"
  | cond => "If"
  | binary => "Binary"
  | tuple => "Tuple"
  | first => "First"
  | second => "Second"
  | print => "Print"

def ofName? (name : String) : Option Kind := all.find? (·.name = name)

theorem mem_all (k : Kind) : k ∈ all := by cases k <;> decide

theorem ofName?_name (k : Kind) : ofName? k.name = some k := by cases k <;> decide

theorem name_of_ofName? {name : String} {k : Kind} (h : ofName? name = some k) : k.name = name := by
  simpa using List.find?_some h

end Kind

def kind : Term → Kind
  | int .. => .int
  | str .. => .str
  | bool .. => .bool
  | var .. => .var
  | function .. => .function
  | call .. => .call
  | letIn .. => .letIn
  | cond .. => .cond
  | binary .. => .binary
  | tuple .. => .tuple
  | first .. => .first
  | second .. => .second
  | print .. => .print

def location : Term → Location
  | int _ l => l
  | str _ l => l
  | bool _ l => l
  | var _ l => l
  | function _ _ l => l
  | call _ _ l => l
  | letIn _ _ _ l => l
  | cond _ _ _ l => l
  | binary _ _ _ l => l
  | tuple _ _ l => l
  | first _ l => l
  | second _ l => l
  | print _ l => l

/-- Direct subterms, in the order of the document. -/
def children : Term → List Term
  | int .. => []
  | str .. => []
  | bool .. => []
  | var .. => []
  | function _ body _ => [body]
  | call callee arguments _ => callee :: arguments
  | letIn _ value next _ => [value, next]
  | cond condition whenTrue whenFalse _ => [condition, whenTrue, whenFalse]
  | binary _ left right _ => [left, right]
  | tuple a b _ => [a, b]
  | first operand _ => [operand]
  | second operand _ => [operand]
  | print operand _ => [operand]

mutual

def size : Term → Nat
  | int .. => 1
  | str .. => 1
  | bool .. => 1
  | var .. => 1
  | function _ body _ => 1 + size body
  | call callee arguments _ => 1 + (size callee + sizeAll arguments)
  | letIn _ value next _ => 1 + (size value + size next)
  | cond condition whenTrue whenFalse _ => 1 + (size condition + (size whenTrue + size whenFalse))
  | binary _ left right _ => 1 + (size left + size right)
  | tuple a b _ => 1 + (size a + size b)
  | first operand _ => 1 + size operand
  | second operand _ => 1 + size operand
  | print operand _ => 1 + size operand

def sizeAll : List Term → Nat
  | [] => 0
  | t :: rest => size t + sizeAll rest

end

@[simp] theorem sizeAll_append (xs ys : List Term) : sizeAll (xs ++ ys) = sizeAll xs + sizeAll ys := by
  induction xs with
  | nil => simp [sizeAll]
  | cons t rest ih =>
    simp only [List.cons_append, sizeAll, ih]
    omega

@[simp] theorem sizeAll_reverse (ts : List Term) : sizeAll ts.reverse = sizeAll ts := by
  induction ts with
  | nil => rfl
  | cons t rest ih =>
    simp only [List.reverse_cons, sizeAll_append, sizeAll, ih]
    omega

theorem size_le_sizeAll {t : Term} {ts : List Term} (h : t ∈ ts) : t.size ≤ sizeAll ts := by
  induction ts with
  | nil => cases h
  | cons head rest ih =>
    rw [sizeAll]
    rcases List.mem_cons.1 h with rfl | h
    · omega
    · have hrest := ih h
      omega

theorem size_eq (t : Term) : t.size = 1 + sizeAll t.children := by
  cases t <;> simp [size, children, sizeAll]

/-- Counts the nodes of the terms still to be visited, which form a stack: the last child of a node is visited
right after it. -/
def countPending (count : Nat) (pending : List Term) : Nat :=
  match pending with
  | [] => count
  | t :: rest => countPending (count + 1) (t.children.reverse ++ rest)
termination_by sizeAll pending
decreasing_by
  simp only [sizeAll_append, sizeAll_reverse, sizeAll, size_eq]
  omega

def nodeCount (t : Term) : Nat := countPending 0 [t]

theorem countPending_eq (count : Nat) (pending : List Term) :
    countPending count pending = count + sizeAll pending := by
  fun_induction countPending count pending with
  | case1 => simp [sizeAll]
  | case2 count t rest ih =>
    rw [ih]
    simp only [sizeAll_append, sizeAll_reverse, sizeAll, size_eq t]
    omega

/-- Visiting pending terms one by one counts every node once. -/
theorem nodeCount_eq_size (t : Term) : t.nodeCount = t.size := by
  simp [nodeCount, countPending_eq, sizeAll]

end Term

structure Program where
  name : String
  expression : Term
  location : Location
deriving Repr

end Treewalk

import Treewalk.Term

/-! Equality of terms is decidable: `Term.same` compares two terms node by node. -/
namespace Treewalk

namespace Term

mutual

/-- Two terms agree in every node and every location. -/
def same : Term → Term → Bool
  | int a l, int b m => decide (a = b) && decide (l = m)
  | str a l, str b m => decide (a = b) && decide (l = m)
  | bool a l, bool b m => decide (a = b) && decide (l = m)
  | var a l, var b m => decide (a = b) && decide (l = m)
  | function p a l, function q b m => decide (p = q) && (same a b && decide (l = m))
  | call c as l, call d bs m => same c d && (sameAll as bs && decide (l = m))
  | letIn p a c l, letIn q b d m => decide (p = q) && (same a b && (same c d && decide (l = m)))
  | cond a c e l, cond b d f m => same a b && (same c d && (same e f && decide (l = m)))
  | binary o a c l, binary p b d m => decide (o = p) && (same a b && (same c d && decide (l = m)))
  | tuple a c l, tuple b d m => same a b && (same c d && decide (l = m))
  | first a l, first b m => same a b && decide (l = m)
  | second a l, second b m => same a b && decide (l = m)
  | print a l, print b m => same a b && decide (l = m)
  | _, _ => false

def sameAll : List Term → List Term → Bool
  | [], [] => true
  | a :: as, b :: bs => same a b && sameAll as bs
  | _, _ => false

end

mutual

theorem same_iff (a b : Term) : same a b = true ↔ a = b := by
  cases a <;> cases b <;>
    simp [same, same_iff, sameAll_iff]

theorem sameAll_iff (as bs : List Term) : sameAll as bs = true ↔ as = bs := by
  cases as <;> cases bs <;> simp [sameAll, same_iff, sameAll_iff]

end

end Term

instance : DecidableEq Term := fun a b => decidable_of_iff _ (Term.same_iff a b)

deriving instance DecidableEq for Function, Program

end Treewalk

import Mathlib.Data.Int.ModEq
import Treewalk.Evaluation.Operate

/-! The operators as a table over the mathematical integers.

`Yields` lists the operands that each operator takes and what it makes of them. Sums, differences, products and
quotients are formed exactly and then brought into 64 bits. Operations follow the table, and all operands that are not
in it are refused, with a zero divisor told apart from operands of the wrong kinds. -/
namespace Treewalk.Operator

open Evaluation

/-- The integer of 64 bits that equals a given one modulo `2 ^ 64`. -/
def Wraps (n : Int) (c : Int64) : Prop := c.toInt ≡ n [ZMOD 2 ^ 64]

def Comparable (a b : Value) : Prop := a.kind = b.kind ∧ a.kind ∈ [.int, .str, .bool]

inductive Yields : Operator → Value → Value → Value → Prop
  | sum {a b c : Int64} (wraps : Wraps (a.toInt + b.toInt) c) : Yields .add (.int a) (.int b) (.int c)
  | difference {a b c : Int64} (wraps : Wraps (a.toInt - b.toInt) c) : Yields .sub (.int a) (.int b) (.int c)
  | product {a b c : Int64} (wraps : Wraps (a.toInt * b.toInt) c) : Yields .mul (.int a) (.int b) (.int c)
  -- The quotient is truncated toward zero. It leaves 64 bits in one case only, that of the least integer and `-1`.
  | quotient {a b c : Int64} (divisor : b.toInt ≠ 0) (wraps : Wraps (a.toInt.tdiv b.toInt) c) :
      Yields .div (.int a) (.int b) (.int c)
  | remainder {a b c : Int64} (divisor : b.toInt ≠ 0) (exact : c.toInt = a.toInt.tmod b.toInt) :
      Yields .rem (.int a) (.int b) (.int c)
  | less {a b : Int64} : Yields .lt (.int a) (.int b) (.bool (decide (a.toInt < b.toInt)))
  | greater {a b : Int64} : Yields .gt (.int a) (.int b) (.bool (decide (a.toInt > b.toInt)))
  | atMost {a b : Int64} : Yields .lte (.int a) (.int b) (.bool (decide (a.toInt ≤ b.toInt)))
  | atLeast {a b : Int64} : Yields .gte (.int a) (.int b) (.bool (decide (a.toInt ≥ b.toInt)))
  | texts {s t : String} : Yields .add (.str s) (.str t) (.str (s ++ t))
  | numberText {a : Int64} {t : String} : Yields .add (.int a) (.str t) (.str (a.toInt.repr ++ t))
  | textNumber {s : String} {b : Int64} : Yields .add (.str s) (.int b) (.str (s ++ b.toInt.repr))
  | equal {a b : Value} (comparable : Comparable a b) : Yields .eq a b (.bool (decide (a = b)))
  | unequal {a b : Value} (comparable : Comparable a b) : Yields .neq a b (.bool (decide (a ≠ b)))
  | both {p q : Bool} : Yields .and (.bool p) (.bool q) (.bool (p && q))
  | either {p q : Bool} : Yields .or (.bool p) (.bool q) (.bool (p || q))

/-- An integer is divided by zero. A dividend of another kind is a matter of kinds, whatever the divisor. -/
inductive DividesByZero : Operator → Value → Value → Prop
  | quotient {a : Int64} : DividesByZero .div (.int a) (.int 0)
  | remainder {a : Int64} : DividesByZero .rem (.int a) (.int 0)

/-! ### Integers of 64 bits -/

theorem wraps_iff {n : Int} {c : Int64} : Wraps n c ↔ c.toInt = n.bmod (2 ^ 64) := by
  have hlow := c.le_toInt
  have hhigh := c.toInt_lt
  have hmod := Int.bmod_def n (2 ^ 64)
  unfold Wraps Int.ModEq
  constructor
  · intro h
    split at hmod <;> omega
  · intro h
    split at hmod <;> omega

theorem wraps_iff_eq {n : Int} {c d : Int64} (h : d.toInt = n.bmod (2 ^ 64)) : Wraps n c ↔ c = d := by
  rw [wraps_iff, ← h, Int64.toInt_inj]

theorem existsUnique_wraps (n : Int) : ∃! c, Wraps n c := by
  have hself : (Int64.ofInt n).toInt = n.bmod (2 ^ 64) := Int64.toInt_ofInt
  refine ⟨Int64.ofInt n, wraps_iff.2 hself, ?_⟩
  intro c hc
  exact (wraps_iff_eq hself).1 hc

theorem ne_zero_iff {b : Int64} : b.toInt ≠ 0 ↔ b ≠ 0 := by
  rw [Ne, ← Int64.toInt_zero, Int64.toInt_inj]

/-! ### Operations against the table -/

theorem simpleEqual?_of_comparable {a b : Value} (h : Comparable a b) :
    a.simpleEqual? b = some (decide (a = b)) := by
  obtain ⟨hkind, hsimple⟩ := h
  cases a <;> cases b <;> simp_all [Value.simpleEqual?, Value.kind]

theorem comparable_of_simpleEqual? {a b : Value} {equal : Bool} (h : a.simpleEqual? b = some equal) :
    Comparable a b ∧ equal = decide (a = b) := by
  have hcomparable : Comparable a b := by
    unfold Value.simpleEqual? at h
    split at h
    · exact ⟨rfl, by simp [Value.kind]⟩
    · exact ⟨rfl, by simp [Value.kind]⟩
    · exact ⟨rfl, by simp [Value.kind]⟩
    · cases h
  rw [simpleEqual?_of_comparable hcomparable] at h
  exact ⟨hcomparable, (Option.some.inj h).symm⟩

theorem yields_of_operate {operator : Operator} {a b v : Value} (h : operator.operate a b = .ok v) :
    Yields operator a b v := by
  unfold operate at h
  split at h
  · cases h
    exact .sum (wraps_iff.2 (Int64.toInt_add _ _))
  · cases h
    exact .texts
  · cases h
    exact .numberText
  · cases h
    exact .textNumber
  · cases h
    exact .difference (wraps_iff.2 (Int64.toInt_sub _ _))
  · cases h
    exact .product (wraps_iff.2 (Int64.toInt_mul _ _))
  · split at h
    · cases h
    · rename_i hdivisor
      cases h
      exact .quotient (ne_zero_iff.2 hdivisor) (wraps_iff.2 (Int64.toInt_div _ _))
  · split at h
    · cases h
    · rename_i hdivisor
      cases h
      exact .remainder (ne_zero_iff.2 hdivisor) (Int64.toInt_mod _ _)
  · split at h
    · rename_i hequal
      cases h
      obtain ⟨hcomparable, rfl⟩ := comparable_of_simpleEqual? hequal
      exact .equal hcomparable
    · cases h
  · split at h
    · rename_i hequal
      cases h
      obtain ⟨hcomparable, rfl⟩ := comparable_of_simpleEqual? hequal
      rw [← decide_not]
      exact .unequal hcomparable
    · cases h
  · cases h
    simp only [Int64.lt_iff_toInt_lt]
    exact .less
  · cases h
    simp only [Int64.lt_iff_toInt_lt]
    exact .greater
  · cases h
    simp only [Int64.le_iff_toInt_le]
    exact .atMost
  · cases h
    simp only [Int64.le_iff_toInt_le]
    exact .atLeast
  · cases h
    exact .both
  · cases h
    exact .either
  · cases h

theorem operate_of_yields {operator : Operator} {a b v : Value} (h : Yields operator a b v) :
    operator.operate a b = .ok v := by
  cases h with
  | sum wraps => rw [operate, (wraps_iff_eq (Int64.toInt_add _ _)).1 wraps]
  | difference wraps => rw [operate, (wraps_iff_eq (Int64.toInt_sub _ _)).1 wraps]
  | product wraps => rw [operate, (wraps_iff_eq (Int64.toInt_mul _ _)).1 wraps]
  | quotient divisor wraps =>
    rw [operate, if_neg (ne_zero_iff.1 divisor), (wraps_iff_eq (Int64.toInt_div _ _)).1 wraps]
  | remainder divisor exact =>
    have hmod := exact.trans (Int64.toInt_mod _ _).symm
    rw [operate, if_neg (ne_zero_iff.1 divisor), Int64.toInt_inj.1 hmod]
  | less => simp only [operate, Int64.lt_iff_toInt_lt]
  | greater => simp only [operate, Int64.lt_iff_toInt_lt]
  | atMost => simp only [operate, Int64.le_iff_toInt_le]
  | atLeast => simp only [operate, Int64.le_iff_toInt_le]
  | texts => rfl
  | numberText => rfl
  | textNumber => rfl
  | equal comparable => simp only [operate, simpleEqual?_of_comparable comparable]
  | unequal comparable => simp only [operate, simpleEqual?_of_comparable comparable, decide_not]
  | both => rfl
  | either => rfl

theorem operate_eq_ok_iff {operator : Operator} {a b v : Value} :
    operator.operate a b = .ok v ↔ Yields operator a b v :=
  ⟨yields_of_operate, operate_of_yields⟩

theorem operate_eq_divisionByZero_iff {operator : Operator} {a b : Value} :
    operator.operate a b = .error .divisionByZero ↔ DividesByZero operator a b := by
  constructor
  · intro h
    unfold operate at h
    split at h <;> first | cases h | skip
    · split at h
      · rename_i hzero
        rw [hzero]
        exact .quotient
      · cases h
    · split at h
      · rename_i hzero
        rw [hzero]
        exact .remainder
      · cases h
    · split at h <;> cases h
    · split at h <;> cases h
  · intro h
    cases h <;> rfl

/-- Operands are refused for their kinds exactly if the table has no place for them. -/
theorem operate_eq_typeMismatch_iff {operator : Operator} {a b : Value} :
    operator.operate a b = .error (.typeMismatch (.operands operator a.kind b.kind)) ↔
      ¬ DividesByZero operator a b ∧ ∀ v, ¬ Yields operator a b v := by
  rw [← operate_eq_divisionByZero_iff]
  simp only [← operate_eq_ok_iff]
  cases h : operator.operate a b with
  | ok v => simp
  | error cause =>
    have hcause := operate_error h
    rcases hcause with rfl | rfl
    · simp
    · simp

theorem apply_eq_ok_iff {operator : Operator} {a b v : Value} {l : Location} :
    operator.apply a b l = .ok v ↔ operator.operate a b = .ok v := by
  unfold apply
  cases operator.operate a b <;> simp [Except.mapError]

theorem apply_eq_error_iff {operator : Operator} {a b : Value} {l : Location} {e : EvalError} :
    operator.apply a b l = .error e ↔ e.location = l ∧ operator.operate a b = .error e.cause := by
  obtain ⟨cause, location⟩ := e
  unfold apply
  cases operator.operate a b <;> simp [Except.mapError, and_comm, eq_comm]

theorem yields_eq_iff {a b v : Value} : Yields .eq a b v ↔ Comparable a b ∧ v = .bool (decide (a = b)) := by
  constructor
  · intro h
    cases h with
    | equal comparable => exact ⟨comparable, rfl⟩
  · rintro ⟨comparable, rfl⟩
    exact .equal comparable

theorem yields_neq_iff {a b v : Value} : Yields .neq a b v ↔ Comparable a b ∧ v = .bool (decide (a ≠ b)) := by
  constructor
  · intro h
    cases h with
    | unequal comparable => exact ⟨comparable, rfl⟩
  · rintro ⟨comparable, rfl⟩
    exact .unequal comparable

/-- Operations at a node follow the table. What is not in it is an error at the node: division by zero for an integer
and a zero divisor, and else a mismatch that names the kinds of both operands in their order. -/
theorem apply_exactly_table (operator : Operator) (a b : Value) (l : Location) :
    (∀ v, operator.apply a b l = .ok v ↔ Yields operator a b v) ∧
    (∀ e, operator.apply a b l = .error e ↔ e.location = l ∧
      (e.cause = .divisionByZero ∧ DividesByZero operator a b ∨
        e.cause = .typeMismatch (.operands operator a.kind b.kind) ∧ ¬ DividesByZero operator a b ∧
          ∀ v, ¬ Yields operator a b v)) ∧
    (Mismatch.operands operator a.kind b.kind).found = a.kind.name ++ " and " ++ b.kind.name ∧
    (∀ n, ∃! c, Wraps n c) ∧
    -- Equality and its negation succeed on the same operands, with opposite answers.
    ((∃ v, Operator.eq.apply a b l = .ok v) ↔ Comparable a b) ∧
    ((∃ v, Operator.neq.apply a b l = .ok v) ↔ Comparable a b) ∧
    (∀ answer, Operator.eq.apply a b l = .ok (.bool answer) ↔ Operator.neq.apply a b l = .ok (.bool !answer)) := by
  refine ⟨fun v => ?_, fun e => ?_, rfl, existsUnique_wraps, ?_, ?_, fun answer => ?_⟩
  · rw [apply_eq_ok_iff, operate_eq_ok_iff]
  · rw [apply_eq_error_iff]
    constructor
    · rintro ⟨hlocation, hoperate⟩
      refine ⟨hlocation, ?_⟩
      rcases operate_error hoperate with hcause | hcause
      · rw [hcause, operate_eq_divisionByZero_iff] at hoperate
        exact .inl ⟨hcause, hoperate⟩
      · rw [hcause, operate_eq_typeMismatch_iff] at hoperate
        exact .inr ⟨hcause, hoperate⟩
    · rintro ⟨hlocation, ⟨hcause, hzero⟩ | ⟨hcause, hnone⟩⟩
      · rw [hcause]
        exact ⟨hlocation, operate_eq_divisionByZero_iff.2 hzero⟩
      · rw [hcause]
        exact ⟨hlocation, operate_eq_typeMismatch_iff.2 hnone⟩
  · simp [apply_eq_ok_iff, operate_eq_ok_iff, yields_eq_iff]
  · simp [apply_eq_ok_iff, operate_eq_ok_iff, yields_neq_iff]
  · simp only [apply_eq_ok_iff, operate_eq_ok_iff, yields_eq_iff, yields_neq_iff, Value.bool.injEq, decide_not]
    rw [Bool.not_inj_iff]

/-- The one quotient that leaves the range of 64 bits. -/
example (l : Location) :
    Operator.div.apply (.int (-9223372036854775808)) (.int (-1)) l = .ok (.int (-9223372036854775808)) := rfl

end Treewalk.Operator

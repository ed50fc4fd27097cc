import Treewalk.Proofs.Operations

/-! Quotients and remainders of 64-bit integers.

The quotient is truncated toward zero, so that the remainder goes with the dividend. `Truncates` says so in exact
integers, where it singles out one pair. The two operations return that pair for all operands but the least integer and
`-1`; there the quotient is one beyond the greatest integer and wraps around. -/
namespace Treewalk.Operator

/-- Quotient and remainder of a division that truncates toward zero. -/
structure Truncates (a b q r : Int) : Prop where
  exact : q * b + r = a
  small : |r| < |b|
  sign : r = 0 ∨ r.sign = a.sign

theorem abs_tmod_lt (a : Int) {b : Int} (hb : b ≠ 0) : |a.tmod b| < |b| := by
  have hpositive : 0 < b.natAbs := Int.natAbs_pos.2 hb
  have hnat : (a.tmod b).natAbs < b.natAbs := by
    rw [Int.natAbs_tmod]
    exact Nat.mod_lt _ hpositive
  rw [Int.abs_eq_natAbs, Int.abs_eq_natAbs]
  omega

theorem tmod_eq_zero_or_sign (a b : Int) : a.tmod b = 0 ∨ (a.tmod b).sign = a.sign := by
  have hsign := Int.sign_tmod a b
  split at hsign
  · exact .inl (Int.sign_eq_zero_iff_zero.1 hsign)
  · exact .inr hsign

theorem truncates_tdiv (a : Int) {b : Int} (hb : b ≠ 0) : Truncates a b (a.tdiv b) (a.tmod b) :=
  ⟨Int.tdiv_mul_add_tmod a b, abs_tmod_lt a hb, tmod_eq_zero_or_sign a b⟩

/-- No other pair divides exactly, with a small remainder that goes with the dividend. -/
theorem Truncates.unique {a b q r : Int} (h : Truncates a b q r) (hb : b ≠ 0) : q = a.tdiv b ∧ r = a.tmod b := by
  have hexact : r + b * q = a := by
    have hsum := h.exact
    rw [Int.mul_comm q b] at hsum
    omega
  have hsmall := h.small
  rw [Int.abs_eq_natAbs, Int.abs_eq_natAbs] at hsmall
  rcases Int.le_total 0 a with ha | ha
  · have hr : 0 ≤ r := by
      rcases h.sign with hzero | hsign
      · omega
      · have hdividend := Int.sign_nonneg_iff.2 ha
        rw [← hsign] at hdividend
        exact Int.sign_nonneg_iff.1 hdividend
    obtain ⟨hq, hr⟩ := (Int.tdiv_tmod_unique ha hb).2 ⟨hexact, hr, by omega⟩
    exact ⟨hq.symm, hr.symm⟩
  · have hr : r ≤ 0 := by
      rcases h.sign with hzero | hsign
      · omega
      · have hdividend := Int.sign_nonpos_iff.2 ha
        rw [← hsign] at hdividend
        exact Int.sign_nonpos_iff.1 hdividend
    obtain ⟨hq, hr⟩ := (Int.tdiv_tmod_unique' ha hb).2 ⟨hexact, by omega, hr⟩
    exact ⟨hq.symm, hr.symm⟩

theorem truncates_iff {a b q r : Int} (hb : b ≠ 0) : Truncates a b q r ↔ q = a.tdiv b ∧ r = a.tmod b := by
  constructor
  · intro h
    exact h.unique hb
  · intro h
    rw [h.1, h.2]
    exact truncates_tdiv a hb

/-- The one division whose quotient is no integer of 64 bits. -/
def Overflows (a b : Int64) : Prop := a = Int64.minValue ∧ b = -1

theorem toInt_div_of_not_overflows {a b : Int64} (h : ¬ Overflows a b) :
    (a / b).toInt = a.toInt.tdiv b.toInt := by
  by_cases ha : a = Int64.minValue
  · have hb : b ≠ -1 := fun hb => h ⟨ha, hb⟩
    exact Int64.toInt_div_of_ne_right a b hb
  · exact Int64.toInt_div_of_ne_left a b ha

theorem div_of_overflows {a b : Int64} (h : Overflows a b) : a / b = a ∧ a % b = 0 := by
  obtain ⟨rfl, rfl⟩ := h
  exact ⟨rfl, rfl⟩

/-- The quotient equals its wrapped form modulo `2 ^ 64`, so multiplying it back and adding the remainder returns to the
dividend, with or without an overflow on the way. -/
theorem wraps_dividend {a b q r p : Int64} (hq : Wraps (a.toInt.tdiv b.toInt) q) (hr : r.toInt = a.toInt.tmod b.toInt)
    (hp : Wraps (q.toInt * b.toInt) p) : Wraps (p.toInt + r.toInt) a := by
  have hback : p.toInt + r.toInt ≡ a.toInt [ZMOD 2 ^ 64] := by
    calc p.toInt + r.toInt ≡ q.toInt * b.toInt + r.toInt [ZMOD 2 ^ 64] := hp.add_right _
      _ ≡ a.toInt.tdiv b.toInt * b.toInt + r.toInt [ZMOD 2 ^ 64] := (hq.mul_right _).add_right _
      _ = a.toInt := by rw [hr, Int.tdiv_mul_add_tmod]
  exact hback.symm

/-- Dividing by an integer other than zero succeeds. Multiplying the quotient back and adding the remainder gives the
dividend; the remainder is smaller than the divisor and goes with the dividend. The same holds in exact integers, of
this pair and of no other, unless the quotient overflows: then it is the dividend itself, and the remainder is zero. -/
theorem quotient_and_remainder (a b : Int64) (hb : b ≠ 0) :
    ∃ q r p : Int64,
      (∀ l, Operator.div.apply (.int a) (.int b) l = .ok (.int q) ∧
        Operator.rem.apply (.int a) (.int b) l = .ok (.int r) ∧
        Operator.mul.apply (.int q) (.int b) l = .ok (.int p) ∧
        Operator.add.apply (.int p) (.int r) l = .ok (.int a)) ∧
      |r.toInt| < |b.toInt| ∧ (r = 0 ∨ r.toInt.sign = a.toInt.sign) ∧
      (q.toInt * b.toInt + r.toInt = a.toInt ↔ ¬ Overflows a b) ∧
      (Overflows a b → q = a ∧ r = 0) ∧
      (¬ Overflows a b → ∀ q' r' : Int, Truncates a.toInt b.toInt q' r' ↔ q' = q.toInt ∧ r' = r.toInt) := by
  have hdivisor : b.toInt ≠ 0 := ne_zero_iff.2 hb
  have hq : Wraps (a.toInt.tdiv b.toInt) (a / b) := wraps_iff.2 (Int64.toInt_div a b)
  have hr : (a % b).toInt = a.toInt.tmod b.toInt := Int64.toInt_mod a b
  obtain ⟨p, hp, -⟩ := existsUnique_wraps ((a / b).toInt * b.toInt)
  have hsum : Wraps (p.toInt + (a % b).toInt) a := wraps_dividend hq hr hp
  refine ⟨a / b, a % b, p, fun l => ?_, ?_, ?_, ?_, div_of_overflows, fun h q' r' => ?_⟩
  · simp only [apply_eq_ok_iff, operate_eq_ok_iff]
    exact ⟨.quotient hdivisor hq, .remainder hdivisor hr, .product hp, .sum hsum⟩
  · rw [hr]
    exact abs_tmod_lt a.toInt hdivisor
  · rw [← Int64.toInt_inj, Int64.toInt_zero, hr]
    exact tmod_eq_zero_or_sign a.toInt b.toInt
  · constructor
    · intro hexact hoverflows
      obtain ⟨rfl, rfl⟩ := hoverflows
      exact absurd hexact (by decide)
    · intro h
      rw [toInt_div_of_not_overflows h, hr]
      exact Int.tdiv_mul_add_tmod a.toInt b.toInt
  · rw [toInt_div_of_not_overflows h, hr]
    exact truncates_iff hdivisor

/-- The least integer divided by `-1`, and a negative dividend, which rounds up and leaves a negative remainder. -/
theorem quotient_and_remainder_of_negatives :
    let l := Location.unknown
    (-1 : Int64) ≠ 0 ∧ (2 : Int64) ≠ 0 ∧
      Operator.div.apply (.int Int64.minValue) (.int (-1)) l = .ok (.int Int64.minValue) ∧
      Operator.rem.apply (.int Int64.minValue) (.int (-1)) l = .ok (.int 0) ∧
      ∀ q r : Int, Truncates (-7) 2 q r ↔ q = -3 ∧ r = -1 := by
  intro l
  have hone : (-1 : Int64) ≠ 0 := by decide
  have htwo : (2 : Int64) ≠ 0 := by decide
  obtain ⟨q, r, p, hleast, -, -, -, hoverflows, -⟩ := quotient_and_remainder Int64.minValue (-1) hone
  obtain ⟨rfl, rfl⟩ := hoverflows ⟨rfl, rfl⟩
  obtain ⟨q, r, p, hseven, -, -, -, -, hunique⟩ := quotient_and_remainder (-7) 2 htwo
  obtain rfl : (-3 : Int64) = q := Value.int.inj (Except.ok.inj (hseven l).1)
  obtain rfl : (-1 : Int64) = r := Value.int.inj (Except.ok.inj (hseven l).2.1)
  have hfits : ¬ Overflows (-7) 2 := by
    intro h
    exact absurd h.2 (by decide)
  exact ⟨hone, htwo, (hleast l).1, (hleast l).2.1, hunique hfits⟩

end Treewalk.Operator

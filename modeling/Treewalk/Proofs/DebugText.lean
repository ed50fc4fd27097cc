import Mathlib.Algebra.Group.Int.Defs
import Treewalk.Proofs.Origins
import Treewalk.Proofs.Quotation

/-! Values that carry no function are equal exactly if a programmer sees the same text.

Texts of values are read from left to right. The first character gives the kind of the value away, and the kind says
where its text ends, so that nothing that stands in strings or numbers can be taken for the punctuation of pairs. -/
namespace Treewalk

namespace Text

/-- A number is not continued by the text. -/
def EndsDigits (s : List Char) : Prop := ∀ c ∈ s.head?, c.isDigit = false

variable {x y : List Char}

theorem takeWhile_of_endsDigits (h : EndsDigits x) : x.takeWhile Char.isDigit = [] := by
  cases x with
  | nil => rfl
  | cons c rest => simp [h c rfl]

theorem isDigit_of_mem_toDigits {n : Nat} {c : Char} (h : c ∈ Nat.toDigits 10 n) : c.isDigit = true :=
  Nat.isDigit_of_mem_toDigits (by omega) (by omega) h

theorem takeWhile_toDigits (n : Nat) (h : EndsDigits x) :
    (Nat.toDigits 10 n ++ x).takeWhile Char.isDigit = Nat.toDigits 10 n := by
  rw [List.takeWhile_append_of_pos fun _ => isDigit_of_mem_toDigits, takeWhile_of_endsDigits h, List.append_nil]

theorem toDigits_append_inj {m n : Nat} (hx : EndsDigits x) (hy : EndsDigits y)
    (h : Nat.toDigits 10 m ++ x = Nat.toDigits 10 n ++ y) : m = n ∧ x = y := by
  have hdigits : Nat.toDigits 10 m = Nat.toDigits 10 n := by
    rw [← takeWhile_toDigits m hx, h, takeWhile_toDigits n hy]
  have hmn : m = n := by
    calc m = Nat.ofDigitChars 10 (Nat.toDigits 10 m) 0 := Nat.ofDigitChars_ten_toDigits.symm
      _ = Nat.ofDigitChars 10 (Nat.toDigits 10 n) 0 := by rw [hdigits]
      _ = n := Nat.ofDigitChars_ten_toDigits
  rw [hdigits] at h
  exact ⟨hmn, List.append_cancel_left h⟩

theorem toDigits_append_ne_minus {n : Nat} : Nat.toDigits 10 n ++ x ≠ '-' :: y := by
  intro h
  cases hdigits : Nat.toDigits 10 n with
  | nil => exact Nat.toDigits_ne_nil hdigits
  | cons c rest =>
    rw [hdigits] at h
    have hc : c.isDigit = true := isDigit_of_mem_toDigits (hdigits ▸ List.mem_cons_self)
    rw [(List.cons.inj h).1] at hc
    exact absurd hc (by decide)

theorem toList_repr_ofNat (n : Nat) : (Int.ofNat n).repr.toList = Nat.toDigits 10 n := by simp [Int.repr, Nat.repr]

theorem toList_repr_negSucc (n : Nat) : (Int.negSucc n).repr.toList = '-' :: Nat.toDigits 10 (n + 1) := by
  simp [Int.repr, Nat.repr]

theorem repr_append_inj {a b : Int} (hx : EndsDigits x) (hy : EndsDigits y)
    (h : a.repr.toList ++ x = b.repr.toList ++ y) : a = b ∧ x = y := by
  cases a with
  | ofNat m =>
    rw [toList_repr_ofNat] at h
    cases b with
    | ofNat n =>
      rw [toList_repr_ofNat] at h
      obtain ⟨rfl, hxy⟩ := toDigits_append_inj hx hy h
      exact ⟨rfl, hxy⟩
    | negSucc n =>
      rw [toList_repr_negSucc] at h
      exact absurd h toDigits_append_ne_minus
  | negSucc m =>
    rw [toList_repr_negSucc] at h
    cases b with
    | ofNat n =>
      rw [toList_repr_ofNat] at h
      exact absurd h.symm toDigits_append_ne_minus
    | negSucc n =>
      rw [toList_repr_negSucc] at h
      obtain ⟨hmn, hxy⟩ := toDigits_append_inj hx hy (List.cons.inj h).2
      exact ⟨congrArg Int.negSucc (Nat.succ.inj hmn), hxy⟩

end Text

namespace Value

/-- The kind of a value whose text begins with the character. -/
def kindOfFirst (c : Char) : Kind :=
  if c = '"' then .str
  else if c = '(' then .tuple
  else if c = '<' then .function
  else if c = 't' then .bool
  else if c = 'f' then .bool
  else .int

variable {E : Text.Escaping} {v w : Value} {x y : List Char}

theorem kindOfFirst_of_isDigit {c : Char} (h : c.isDigit = true) : kindOfFirst c = .int := by
  have hne (d : Char) (hd : d.isDigit = false) : c ≠ d := by
    rintro rfl
    rw [h] at hd
    cases hd
  simp [kindOfFirst, hne]

theorem kindOfFirst_repr (n : Int) : (n.repr.toList ++ x).head?.map kindOfFirst = some .int := by
  cases n with
  | ofNat m =>
    cases hdigits : Nat.toDigits 10 m with
    | nil => exact absurd hdigits Nat.toDigits_ne_nil
    | cons c rest =>
      have hc : c.isDigit = true := Text.isDigit_of_mem_toDigits (hdigits ▸ List.mem_cons_self)
      rw [Text.toList_repr_ofNat, hdigits]
      exact congrArg some (kindOfFirst_of_isDigit hc)
  | negSucc m => simp [Text.toList_repr_negSucc, kindOfFirst]

/-- The text of every value begins with a character of its kind. -/
theorem kindOfFirst_debugText (E : Text.Escaping) (v : Value) (x : List Char) :
    ((v.debugTextWith E.quoted).toList ++ x).head?.map kindOfFirst = some v.kind := by
  cases v with
  | int n => exact kindOfFirst_repr n.toInt
  | str s => simp [debugTextWith, Text.Escaping.quoted, kindOfFirst, kind]
  | bool b => cases b <;> simp [debugTextWith, boolText, kindOfFirst, kind]
  | tuple a b => simp [debugTextWith, kindOfFirst, kind]
  | function f => simp [debugTextWith, kindOfFirst, kind]

theorem kind_eq_of_append (h : (v.debugTextWith E.quoted).toList ++ x = (w.debugTextWith E.quoted).toList ++ y) :
    v.kind = w.kind := by
  have hv := kindOfFirst_debugText E v x
  rw [h, kindOfFirst_debugText E w y] at hv
  exact (Option.some.inj hv).symm

theorem boolText_append_inj {b b' : Bool} (h : (boolText b).toList ++ x = (boolText b').toList ++ y) :
    b = b' ∧ x = y := by
  cases b <;> cases b' <;> simp_all [boolText]

theorem toList_debugText_tuple (a b : Value) :
    ((tuple a b).debugTextWith E.quoted).toList ++ x =
      '(' :: ((a.debugTextWith E.quoted).toList ++ ',' :: ' ' :: ((b.debugTextWith E.quoted).toList ++ ')' :: x)) := by
  simp [debugTextWith]

/-- A value that carries no function is determined by any text that begins with its own, and so is what stands behind
it. Behind a number there must not be a digit. -/
theorem debugText_append_inj (hv : v.functions = []) (hx : Text.EndsDigits x) (hy : Text.EndsDigits y)
    (h : (v.debugTextWith E.quoted).toList ++ x = (w.debugTextWith E.quoted).toList ++ y) : v = w ∧ x = y := by
  induction v generalizing w x y with
  | int n =>
    cases w with
    | int m =>
      obtain ⟨hnm, hxy⟩ := Text.repr_append_inj hx hy h
      exact ⟨congrArg int (Int64.toInt_inj.1 hnm), hxy⟩
    | _ => cases kind_eq_of_append h
  | str s =>
    cases w with
    | str u =>
      obtain ⟨rfl, hxy⟩ := Text.Escaping.quoted_append_inj h
      exact ⟨rfl, hxy⟩
    | _ => cases kind_eq_of_append h
  | bool b =>
    cases w with
    | bool b' =>
      obtain ⟨rfl, hxy⟩ := boolText_append_inj h
      exact ⟨rfl, hxy⟩
    | _ => cases kind_eq_of_append h
  | tuple a b iha ihb =>
    cases w with
    | tuple c d =>
      obtain ⟨ha, hb⟩ := List.append_eq_nil_iff.1 hv
      have hcomma (s : List Char) : Text.EndsDigits (',' :: s) := by simp [Text.EndsDigits]
      have hclose (s : List Char) : Text.EndsDigits (')' :: s) := by simp [Text.EndsDigits]
      rw [toList_debugText_tuple, toList_debugText_tuple] at h
      obtain ⟨rfl, hrest⟩ := iha ha (hcomma _) (hcomma _) (List.cons.inj h).2
      obtain ⟨rfl, hend⟩ := ihb hb (hclose _) (hclose _) (List.cons.inj (List.cons.inj hrest).2).2
      exact ⟨rfl, (List.cons.inj hend).2⟩
    | _ => cases kind_eq_of_append h
  | function f => cases hv

theorem eq_of_debugText_eq (hv : v.functions = []) (h : v.debugTextWith E.quoted = w.debugTextWith E.quoted) :
    v = w := by
  have hempty : Text.EndsDigits [] := nofun
  exact (debugText_append_inj hv hempty hempty (by rw [h])).1

theorem equal_eq_true_iff : v.equal w = true ↔ v.functions = [] ∧ v = w := by
  induction v generalizing w with
  | tuple a b iha ihb =>
    cases w with
    | tuple c d =>
      simp only [equal, Bool.and_eq_true, iha, ihb, functions, List.append_eq_nil_iff, tuple.injEq]
      exact and_and_and_comm
    | _ => simp [equal]
  | _ => cases w <;> simp [equal, functions]

theorem equal_iff_debugText (E : Text.Escaping) (v w : Value) :
    v.equal w = true ↔ v.functions = [] ∧ v.debugTextWith E.quoted = w.debugTextWith E.quoted := by
  rw [equal_eq_true_iff]
  refine and_congr_right fun hv => ⟨?_, eq_of_debugText_eq hv⟩
  rintro rfl
  rfl

theorem debugText_eq (v : Value) : v.debugText = v.debugTextWith Text.standard.quoted := by
  rw [debugText, Text.quoted_standard]

/-- Values are equal exactly if they carry no function and show the same text, however strings are quoted. So equality
is symmetric and transitive, a value equals itself exactly if it carries no function, and such a value is determined by
its text. -/
theorem equal_exactly_same_debugText (v w : Value) :
    (v.equal w = true ↔ v.functions = [] ∧ v.debugText = w.debugText) ∧
    (∀ E : Text.Escaping,
      v.equal w = true ↔ v.functions = [] ∧ v.debugTextWith E.quoted = w.debugTextWith E.quoted) ∧
    v.equal w = w.equal v ∧
    (∀ u, v.equal w = true → w.equal u = true → v.equal u = true) ∧
    (v.equal v = true ↔ v.functions = []) ∧
    (v.functions = [] → v.debugText = w.debugText → v = w) := by
  simp only [debugText_eq]
  refine ⟨equal_iff_debugText _ v w, fun E => equal_iff_debugText E v w, ?_, ?_, ?_, eq_of_debugText_eq⟩
  · rw [Bool.eq_iff_iff, equal_eq_true_iff, equal_eq_true_iff]
    constructor
    · rintro ⟨hv, rfl⟩
      exact ⟨hv, rfl⟩
    · rintro ⟨hw, rfl⟩
      exact ⟨hw, rfl⟩
  · intro u hvw hwu
    obtain ⟨-, rfl⟩ := equal_eq_true_iff.1 hvw
    exact hwu
  · rw [equal_eq_true_iff, and_iff_left rfl]

end Value

end Treewalk

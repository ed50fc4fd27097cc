import Mathlib.Algebra.Group.Int.Defs
import Mathlib.Algebra.Group.Nat.Defs
import Treewalk.Json.Reader
import Treewalk.Json.Writer

/-! Strings and integers are read back from the bytes that they are written in.

`readString_foldr` and `readNumber_digits` are the two results; both hold in front of any further text, for
integers as long as that text does not go on with the number. -/
namespace Treewalk.Json

def utf8 (s : List Char) : List UInt8 := s.flatMap String.utf8EncodeChar

theorem utf8_cons (c : Char) (s : List Char) : utf8 (c :: s) = String.utf8EncodeChar c ++ utf8 s :=
  List.flatMap_cons

theorem utf8_append (s u : List Char) : utf8 (s ++ u) = utf8 s ++ utf8 u :=
  List.flatMap_append

theorem toByteArray_utf8 (s : List Char) : (utf8 s).toByteArray = s.utf8Encode := rfl

theorem utf8EncodeChar_ascii {c : Char} (h : c.toNat < 128) : String.utf8EncodeChar c = [ascii c] := by
  have hval : c.val.toNat ≤ 127 := Nat.le_of_lt_succ h
  simp only [String.utf8EncodeChar, hval, if_true]
  rfl

theorem utf8_cons_ascii {c : Char} (h : c.toNat < 128) (s : List Char) : utf8 (c :: s) = ascii c :: utf8 s := by
  rw [utf8_cons, utf8EncodeChar_ascii h, List.singleton_append]

/-! ### Strings -/

theorem toNat_ascii {c : Char} (h : c.toNat < 128) : (ascii c).toNat = c.toNat := by
  have hval : c.val.toNat < 128 := h
  simp only [ascii, Char.toUInt8, UInt32.toNat_toUInt8]
  exact Nat.mod_eq_of_lt (by omega)

theorem ascii_inj {c d : Char} (hc : c.toNat < 128) (hd : d.toNat < 128) : ascii c = ascii d ↔ c = d := by
  rw [← UInt8.toNat_inj, toNat_ascii hc, toNat_ascii hd]
  exact Char.toNat_inj

/-- Outside ASCII every byte of a character has its highest bit set. -/
theorem le_of_mem_utf8EncodeChar {c : Char} (hc : 128 ≤ c.toNat) {b : UInt8}
    (hb : b ∈ String.utf8EncodeChar c) : 128 ≤ b.toNat := by
  have hval : ¬ c.val.toNat ≤ 127 := Nat.not_le_of_gt hc
  have hbyte : ∀ n, 128 ≤ n → n < 256 → 128 ≤ (UInt8.ofNat n).toNat := by
    intro n hlow hhigh
    rw [UInt8.toNat_ofNat_of_lt' hhigh]
    exact hlow
  simp only [String.utf8EncodeChar, hval, if_false] at hb
  split at hb
  · simp only [List.mem_cons, List.not_mem_nil, or_false] at hb
    rcases hb with rfl | rfl <;> exact hbyte _ (by omega) (by omega)
  · split at hb
    · simp only [List.mem_cons, List.not_mem_nil, or_false] at hb
      rcases hb with rfl | rfl | rfl <;> exact hbyte _ (by omega) (by omega)
    · simp only [List.mem_cons, List.not_mem_nil, or_false] at hb
      rcases hb with rfl | rfl | rfl | rfl <;> exact hbyte _ (by omega) (by omega)

/-- A byte that stands for itself inside a string. -/
def IsPlain (b : UInt8) : Prop := b ≠ ascii '"' ∧ b ≠ ascii '\\' ∧ ¬ b < 0x20

theorem isPlain_of_mem_utf8EncodeChar {c : Char} (hquote : c ≠ '"') (hslash : c ≠ '\\')
    (hcontrol : ¬ c.toNat < 0x20) {b : UInt8} (hb : b ∈ String.utf8EncodeChar c) : IsPlain b := by
  by_cases hascii : c.toNat < 128
  · rw [utf8EncodeChar_ascii hascii, List.mem_singleton] at hb
    subst hb
    refine ⟨?_, ?_, ?_⟩
    · rwa [Ne, ascii_inj hascii (by decide)]
    · rwa [Ne, ascii_inj hascii (by decide)]
    · rwa [UInt8.lt_iff_toNat_lt, toNat_ascii hascii]
  · have hlow := le_of_mem_utf8EncodeChar (Nat.le_of_not_lt hascii) hb
    refine ⟨?_, ?_, ?_⟩
    · rintro rfl
      exact absurd hlow (by decide)
    · rintro rfl
      exact absurd hlow (by decide)
    · rw [UInt8.lt_iff_toNat_lt]
      exact Nat.not_lt_of_ge (Nat.le_trans (by decide) hlow)

theorem readStringFrom_append {bytes : List UInt8} (h : ∀ b ∈ bytes, IsPlain b) (done s : List UInt8) :
    readStringFrom done (bytes ++ s) = readStringFrom (bytes.reverse ++ done) s := by
  induction bytes generalizing done with
  | nil => rfl
  | cons b rest ih =>
    obtain ⟨⟨hquote, hslash, hcontrol⟩, hrest⟩ := List.forall_mem_cons.1 h
    rw [List.cons_append, readStringFrom, if_neg hquote, if_neg hslash, if_neg hcontrol, ih hrest]
    simp

theorem readStringFrom_escape {s left bytes : List UInt8} (h : readEscape s = .ok (bytes, left))
    (done : List UInt8) :
    readStringFrom done (ascii '\\' :: s) = readStringFrom (bytes.reverse ++ done) left := by
  rw [readStringFrom, if_neg (by decide), if_pos rfl]
  split
  · rename_i bytes' left' h'
    rw [h] at h'
    cases h'
    rfl
  · rename_i stop h'
    rw [h] at h'
    cases h'

theorem hexValue?_hexDigit : ∀ n, n < 16 → hexValue? (ascii (hexDigit n)) = some n := by decide

theorem hexDigit_toNat_lt : ∀ n, n < 16 → (hexDigit n).toNat < 128 := by decide

theorem readCode_control {n : Nat} (h : n < 0x20) (s : List UInt8) :
    readCode (ascii '0' :: ascii '0' :: ascii (hexDigit (n / 16)) :: ascii (hexDigit (n % 16)) :: s) =
      .ok (String.utf8EncodeChar (Char.ofNat n), s) := by
  have hzero : hexValue? (ascii '0') = some 0 := rfl
  have hsum : ((0 * 16 + 0) * 16 + n / 16) * 16 + n % 16 = n := by omega
  have hlow : isLowSurrogate n = false := by simp [isLowSurrogate]; omega
  have hhigh : isHighSurrogate n = false := by simp [isHighSurrogate]; omega
  simp only [readCode, readHexFour, hexFour?, hzero, hexValue?_hexDigit _ (by omega : n / 16 < 16),
    hexValue?_hexDigit _ (by omega : n % 16 < 16), bind, Except.bind, Option.bind, pure, hsum, hlow, hhigh]
  rfl

theorem readStringFrom_letter {c letter : Char} (hc : c.toNat < 128) (hletter : letter.toNat < 128)
    (h : simpleEscape? (ascii letter) = some (ascii c)) (done : List UInt8) (s : List Char) :
    readStringFrom done (utf8 ('\\' :: letter :: s)) =
      readStringFrom ((String.utf8EncodeChar c).reverse ++ done) (utf8 s) := by
  rw [utf8_cons_ascii (by decide), utf8_cons_ascii hletter, utf8EncodeChar_ascii hc]
  refine readStringFrom_escape ?_ done
  rw [readEscape, h]

theorem readStringFrom_code {c : Char} (hc : c.toNat < 0x20) (done : List UInt8) (s : List Char) :
    readStringFrom done
        (utf8 ('\\' :: 'u' :: '0' :: '0' :: hexDigit (c.toNat / 16) :: hexDigit (c.toNat % 16) :: s)) =
      readStringFrom ((String.utf8EncodeChar c).reverse ++ done) (utf8 s) := by
  rw [utf8_cons_ascii (by decide), utf8_cons_ascii (by decide), utf8_cons_ascii (by decide),
    utf8_cons_ascii (by decide), utf8_cons_ascii (hexDigit_toNat_lt _ (by omega)),
    utf8_cons_ascii (hexDigit_toNat_lt _ (by omega))]
  refine readStringFrom_escape ?_ done
  rw [readEscape, show simpleEscape? (ascii 'u') = none from rfl]
  simp only [if_true, readCode_control hc, Char.ofNat_toNat]

theorem readStringFrom_escapeOnto (c : Char) (done : List UInt8) (s : List Char) :
    readStringFrom done (utf8 (escapeOnto c s)) =
      readStringFrom ((String.utf8EncodeChar c).reverse ++ done) (utf8 s) := by
  unfold escapeOnto
  split
  · rename_i h
    subst h
    exact readStringFrom_letter (by decide) (by decide) rfl done s
  rename_i hquote
  split
  · rename_i h
    subst h
    exact readStringFrom_letter (by decide) (by decide) rfl done s
  rename_i hslash
  split
  · rename_i h
    obtain rfl : c = '\x08' := Char.toNat_inj.1 h
    exact readStringFrom_letter (by decide) (by decide) rfl done s
  split
  · rename_i h
    obtain rfl : c = '\x0c' := Char.toNat_inj.1 h
    exact readStringFrom_letter (by decide) (by decide) rfl done s
  split
  · rename_i h
    subst h
    exact readStringFrom_letter (by decide) (by decide) rfl done s
  split
  · rename_i h
    subst h
    exact readStringFrom_letter (by decide) (by decide) rfl done s
  split
  · rename_i h
    subst h
    exact readStringFrom_letter (by decide) (by decide) rfl done s
  split
  · rename_i hcontrol
    exact readStringFrom_code hcontrol done s
  · rename_i hcontrol
    rw [utf8_cons]
    exact readStringFrom_append (fun b => isPlain_of_mem_utf8EncodeChar hquote hslash hcontrol) done (utf8 s)

theorem finishString_utf8 (text : String) (s : List UInt8) :
    finishString (utf8 text.toList).toByteArray s = .ok (text, s) := by
  have hbytes : (utf8 text.toList).toByteArray = text.toByteArray := by
    rw [toByteArray_utf8, String.utf8Encode_toList]
  have hvalid : String.fromUTF8? text.toByteArray = some text := by
    rw [String.fromUTF8?, dif_pos text.isValidUTF8]
    rfl
  rw [finishString, hbytes, hvalid]

theorem readStringFrom_foldr (text : List Char) (done : List UInt8) (s : List Char) :
    readStringFrom done (utf8 (text.foldr escapeOnto ('"' :: s))) =
      finishString (done.reverse ++ utf8 text).toByteArray (utf8 s) := by
  induction text generalizing done with
  | nil =>
    rw [List.foldr_nil, utf8_cons_ascii (by decide), readStringFrom, if_pos rfl]
    simp [utf8]
  | cons c text ih =>
    rw [List.foldr_cons, readStringFrom_escapeOnto, ih, utf8_cons]
    simp

theorem utf8_stringOnto (text : String) (s : List Char) :
    utf8 (stringOnto text s) = ascii '"' :: utf8 (text.toList.foldr escapeOnto ('"' :: s)) :=
  utf8_cons_ascii (by decide) _

theorem readString_foldr (text : String) (s : List Char) :
    readString (utf8 (text.toList.foldr escapeOnto ('"' :: s))) = .ok (text, utf8 s) := by
  rw [readString, readStringFrom_foldr]
  exact finishString_utf8 text (utf8 s)

theorem escapeOnto_append (c : Char) (s u : List Char) : escapeOnto c s ++ u = escapeOnto c (s ++ u) := by
  unfold escapeOnto
  repeat' split
  all_goals rfl

theorem foldr_escapeOnto_append (text s u : List Char) :
    text.foldr escapeOnto s ++ u = text.foldr escapeOnto (s ++ u) := by
  induction text with
  | nil => rfl
  | cons c rest ih => rw [List.foldr_cons, escapeOnto_append, ih, List.foldr_cons]

theorem stringOnto_append (text : String) (s u : List Char) : stringOnto text s ++ u = stringOnto text (s ++ u) :=
  congrArg ('"' :: ·) (foldr_escapeOnto_append text.toList ('"' :: s) u)

theorem length_utf8_foldr (text s : List Char) :
    (utf8 s).length ≤ (utf8 (text.foldr escapeOnto s)).length := by
  have happend := foldr_escapeOnto_append text [] s
  rw [List.nil_append] at happend
  rw [← happend, utf8_append, List.length_append]
  omega

/-! ### Integers -/

def digits (n : Nat) : List UInt8 := utf8 (Nat.toDigits 10 n)

/-- A number is not continued by the text. -/
def EndsNumber (s : List UInt8) : Prop :=
  ∀ b ∈ s.head?, isDigit b = false ∧ b ≠ ascii '.' ∧ isExponentMark b = false

theorem toNat_of_isDigit {c : Char} (h : c.isDigit = true) : 48 ≤ c.toNat ∧ c.toNat ≤ 57 := by
  simpa [Char.isDigit, UInt32.le_iff_toNat_le] using h

theorem utf8_of_isDigit {cs : List Char} (h : ∀ c ∈ cs, c.isDigit = true) : utf8 cs = cs.map ascii := by
  induction cs with
  | nil => rfl
  | cons c rest ih =>
    obtain ⟨hc, hrest⟩ := List.forall_mem_cons.1 h
    have hrange := toNat_of_isDigit hc
    rw [utf8_cons_ascii (by omega), ih hrest, List.map_cons]

theorem digits_eq_map (n : Nat) : digits n = (Nat.toDigits 10 n).map ascii :=
  utf8_of_isDigit fun _ hc => Nat.isDigit_of_mem_toDigits (by decide) (by decide) hc

theorem isDigit_ascii {c : Char} (h : c.isDigit = true) : isDigit (ascii c) = true := by
  have hrange := toNat_of_isDigit h
  have hvalue := toNat_ascii (c := c) (by omega)
  simp only [isDigit, Bool.and_eq_true, decide_eq_true_eq, UInt8.le_iff_toNat_le, hvalue]
  exact hrange

theorem isDigit_of_mem_digits {n : Nat} {b : UInt8} (h : b ∈ digits n) : isDigit b = true := by
  rw [digits_eq_map] at h
  obtain ⟨c, hc, rfl⟩ := List.mem_map.1 h
  exact isDigit_ascii (Nat.isDigit_of_mem_toDigits (by decide) (by decide) hc)

theorem digits_ne_nil (n : Nat) : digits n ≠ [] := by
  rw [digits_eq_map]
  simp [Nat.toDigits_ne_nil]

/-- No number but zero is written with a zero in front. -/
theorem head_toDigits_ne_zero {n : Nat} (h : 0 < n) : (Nat.toDigits 10 n).head? ≠ some '0' := by
  induction n using Nat.strongRecOn with
  | _ n ih =>
    rw [Nat.toDigits_eq_if (by decide)]
    split
    · rename_i hlt
      have hdigit : ∀ d, d < 10 → 0 < d → Nat.digitChar d ≠ '0' := by decide
      simpa using hdigit n hlt h
    · have hquotient := ih (n / 10) (by omega) (by omega)
      rw [List.head?_append]
      cases hhead : (Nat.toDigits 10 (n / 10)).head? with
      | none => exact absurd (List.head?_eq_none_iff.1 hhead) Nat.toDigits_ne_nil
      | some c => rwa [hhead] at hquotient

theorem le_ofDigitChars (cs : List Char) (m : Nat) : m ≤ Nat.ofDigitChars 10 cs m := by
  have hpower : 0 < 10 ^ cs.length := Nat.pow_pos (by decide)
  have hproduct : m ≤ 10 ^ cs.length * m := Nat.le_mul_of_pos_left m hpower
  rw [Nat.ofDigitChars_eq_ofDigitChars_zero]
  omega

theorem appendDigits_ascii {cs : List Char} (h : ∀ c ∈ cs, c.isDigit = true) {m : Nat}
    (hfits : Nat.ofDigitChars 10 cs m ≤ Number.Decimal.greatestSignificand) :
    Number.Decimal.appendDigits m ((cs.map ascii).map digitValue) = (Nat.ofDigitChars 10 cs m, []) := by
  induction cs generalizing m with
  | nil => rfl
  | cons c rest ih =>
    obtain ⟨hc, hrest⟩ := List.forall_mem_cons.1 h
    have hrange := toNat_of_isDigit hc
    have hvalue : digitValue (ascii c) = c.toNat - 48 := by
      rw [digitValue, toNat_ascii (by omega)]
    rw [Nat.ofDigitChars_cons] at hfits ⊢
    have hle : 10 * m + (c.toNat - 48) ≤ Number.Decimal.greatestSignificand :=
      Nat.le_trans (le_ofDigitChars rest _) hfits
    rw [List.map_cons, List.map_cons, Number.Decimal.appendDigits, hvalue, if_neg (Nat.not_lt.2 hle)]
    exact ih hrest hfits

theorem ofDigits_digits (negative : Bool) {n : Nat} (h : n ≤ Number.Decimal.greatestSignificand) :
    Number.Decimal.ofDigits negative ((digits n).map digitValue) = ⟨negative, n, 0⟩ := by
  have hdigits : ∀ c ∈ Nat.toDigits 10 n, c.isDigit = true := fun _ hc =>
    Nat.isDigit_of_mem_toDigits (by decide) (by decide) hc
  rw [Number.Decimal.ofDigits, digits_eq_map,
    appendDigits_ascii hdigits (by rwa [Nat.ofDigitChars_ten_toDigits]), Nat.ofDigitChars_ten_toDigits]
  rfl

theorem takeWhile_digits (n : Nat) {s : List UInt8} (hs : EndsNumber s) :
    (digits n ++ s).takeWhile isDigit = digits n ∧ (digits n ++ s).dropWhile isDigit = s := by
  have hall : ∀ b ∈ digits n, isDigit b = true := fun _ => isDigit_of_mem_digits
  rw [List.takeWhile_append_of_pos hall, List.dropWhile_append_of_pos hall]
  cases s with
  | nil => simp
  | cons b rest =>
    obtain ⟨hb, -⟩ := hs b rfl
    simp [hb]

theorem leading_zero_digits {n : Nat} {b : UInt8} {rest s : List UInt8} (hdigits : digits n = b :: rest)
    (hs : EndsNumber s) : (decide (b = ascii '0') && (rest ++ s).head?.any isDigit) = false := by
  rcases Nat.eq_zero_or_pos n with rfl | hpos
  · have hzero : digits 0 = [ascii '0'] := by
      rw [digits_eq_map, Nat.toDigits_zero]
      rfl
    rw [hzero] at hdigits
    cases hdigits
    cases s with
    | nil => rfl
    | cons c after =>
      obtain ⟨hc, -⟩ := hs c rfl
      simp [hc]
  · have hhead := head_toDigits_ne_zero hpos
    rw [digits_eq_map] at hdigits
    cases hchars : Nat.toDigits 10 n with
    | nil => exact absurd hchars Nat.toDigits_ne_nil
    | cons c others =>
      have hc : c.isDigit = true :=
        Nat.isDigit_of_mem_toDigits (by decide) (by decide) (hchars ▸ List.mem_cons_self)
      have hrange := toNat_of_isDigit hc
      rw [hchars] at hdigits hhead
      obtain ⟨rfl, -⟩ := List.cons.inj hdigits
      have hne : c ≠ '0' := fun h => hhead (congrArg some h)
      simp [ascii_inj (by omega : c.toNat < 128) (by decide : '0'.toNat < 128), hne]

theorem readNumber_digits (negative : Bool) {n : Nat} (hn : n ≤ Number.Decimal.greatestSignificand)
    {s : List UInt8} (hs : EndsNumber s) :
    readNumber negative (digits n ++ s) = finishInteger ⟨negative, n, 0⟩ s := by
  obtain ⟨htake, hdrop⟩ := takeWhile_digits n hs
  cases hdigits : digits n with
  | nil => exact absurd hdigits (digits_ne_nil n)
  | cons b rest =>
    have hb : isDigit b = true := isDigit_of_mem_digits (hdigits ▸ List.mem_cons_self)
    rw [hdigits, List.cons_append] at htake hdrop
    rw [List.cons_append, readNumber, htake, hdrop, leading_zero_digits hdigits hs, ← hdigits,
      ofDigits_digits negative hn, hb]
    cases s with
    | nil => rfl
    | cons c after =>
      obtain ⟨-, hpoint, hmark⟩ := hs c rfl
      simp [hpoint, hmark]

theorem readNumber_natural {n : Nat} (hn : n < 2 ^ 64) {s : List UInt8} (hs : EndsNumber s) :
    readNumber false (digits n ++ s) = .ok (.integer n, s) := by
  rw [readNumber_digits false (Nat.le_of_lt_succ hn) hs]
  rfl

theorem readNumber_negative {n : Nat} (hpos : 0 < n) (hn : n ≤ 2 ^ 63) {s : List UInt8} (hs : EndsNumber s) :
    readNumber true (digits n ++ s) = .ok (.integer (-(n : Int)), s) := by
  have hfits : n ≤ Number.Decimal.greatestSignificand := Nat.le_trans hn (by decide)
  have hrange : (decide (0 < n) && decide (n ≤ 9223372036854775808)) = true := by
    simpa using ⟨hpos, hn⟩
  rw [readNumber_digits true hfits hs, finishInteger]
  simp only [hrange]
  rfl

end Treewalk.Json

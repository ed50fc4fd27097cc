import Treewalk.Proofs.JsonTokens

/-! Values are read back from the text that they are written in.

`ReadsTo` says that a reader takes a value off the front of a text, given steps in proportion to the bytes
that it takes; there is one rule for each form of value, with any blanks where a layout may put them.
`ReadsBack` says so of a writer, in front of any further text. -/
namespace Treewalk.Json

variable {α : Type}

/-- A reader takes a result off a text and leaves the rest of it. -/
structure ReadsTo (read : Nat → List UInt8 → Except Stop (α × List UInt8)) (a : α) (s t : List UInt8) :
    Prop where
  shorter : t.length < s.length
  reads : ∀ bound, 3 * s.length ≤ bound + 3 * t.length → read bound s = .ok (a, t)

def Blanks (s : List UInt8) : Prop := ∀ b ∈ s, isBlank b = true

/-- The text begins neither with a blank nor with the end of an array. -/
def StartsValue (s : List UInt8) : Prop := ∃ b rest, s = b :: rest ∧ isBlank b = false ∧ b ≠ ascii ']'

theorem blanks_nil : Blanks [] := nofun

theorem skipBlanks_append {blanks s : List UInt8} (h : Blanks blanks) :
    skipBlanks (blanks ++ s) = skipBlanks s :=
  List.dropWhile_append_of_pos h

theorem skipBlanks_cons {b : UInt8} {s : List UInt8} (h : isBlank b = false) :
    skipBlanks (b :: s) = b :: s := by
  simp [skipBlanks, h]

/-- It is enough to look at bounds that allow one step. -/
theorem ReadsTo.of_succ {read : Nat → List UInt8 → Except Stop (α × List UInt8)} {a : α} {s t : List UInt8}
    (hshorter : t.length < s.length)
    (h : ∀ bound, 3 * s.length ≤ bound + 1 + 3 * t.length → read (bound + 1) s = .ok (a, t)) :
    ReadsTo read a s t := by
  refine ⟨hshorter, fun bound hbound => ?_⟩
  cases bound with
  | zero => omega
  | succ bound => exact h bound hbound

/-! ### Values without parts -/

theorem readsTo_null (s : List Char) : ReadsTo readValue .null (utf8 (textOnto "null" s)) (utf8 s) := by
  have htext : utf8 (textOnto "null" s) = ascii 'n' :: ascii 'u' :: ascii 'l' :: ascii 'l' :: utf8 s := rfl
  rw [htext]
  refine .of_succ (by simp only [List.length_cons]; omega) fun bound _ => ?_
  rw [readValue, skipBlanks_cons rfl]
  rfl

theorem readsTo_bool (b : Bool) (s : List Char) :
    ReadsTo readValue (.bool b) (utf8 (textOnto (if b then "true" else "false") s)) (utf8 s) := by
  cases b with
  | true =>
    have htext : utf8 (textOnto "true" s) = ascii 't' :: ascii 'r' :: ascii 'u' :: ascii 'e' :: utf8 s := rfl
    rw [if_pos rfl, htext]
    refine .of_succ (by simp only [List.length_cons]; omega) fun bound _ => ?_
    rw [readValue, skipBlanks_cons rfl]
    rfl
  | false =>
    have htext : utf8 (textOnto "false" s) =
        ascii 'f' :: ascii 'a' :: ascii 'l' :: ascii 's' :: ascii 'e' :: utf8 s := rfl
    rw [if_neg Bool.false_ne_true, htext]
    refine .of_succ (by simp only [List.length_cons]; omega) fun bound _ => ?_
    rw [readValue, skipBlanks_cons rfl]
    rfl

theorem ne_of_isDigit {b : UInt8} {c : Char} (hb : isDigit b = true) (hc : isDigit (ascii c) = false) :
    b ≠ ascii c := by
  rintro rfl
  rw [hb] at hc
  cases hc

theorem isBlank_of_isDigit {b : UInt8} (h : isDigit b = true) : isBlank b = false := by
  simp only [isBlank, Bool.or_eq_false_iff, beq_eq_false_iff_ne]
  exact ⟨⟨⟨ne_of_isDigit h rfl, ne_of_isDigit h rfl⟩, ne_of_isDigit h rfl⟩,
    ne_of_isDigit h rfl⟩

theorem readsTo_natural {n : Nat} (hn : n < 2 ^ 64) {s : List UInt8} (hs : EndsNumber s) :
    ReadsTo readValue (.number (.integer n)) (digits n ++ s) s := by
  have hread := readNumber_natural hn hs
  cases hdigits : digits n with
  | nil => exact absurd hdigits (digits_ne_nil n)
  | cons b rest =>
    have hb : isDigit b = true := isDigit_of_mem_digits (hdigits ▸ List.mem_cons_self)
    have hquote : b ≠ ascii '"' := ne_of_isDigit hb rfl
    have hbrace : b ≠ ascii '\x7b' := ne_of_isDigit hb rfl
    have hbracket : b ≠ ascii '[' := ne_of_isDigit hb rfl
    have hminus : b ≠ ascii '-' := ne_of_isDigit hb rfl
    rw [hdigits, List.cons_append] at hread
    rw [List.cons_append]
    refine .of_succ (by simp only [List.length_cons, List.length_append]; omega) fun bound _ => ?_
    rw [readValue, skipBlanks_cons (isBlank_of_isDigit hb)]
    simp only [if_neg hquote, if_neg hbrace, if_neg hbracket, if_neg hminus, if_pos hb, hread]
    rfl

theorem readsTo_negative {n : Nat} (hpos : 0 < n) (hn : n ≤ 2 ^ 63) {s : List UInt8} (hs : EndsNumber s) :
    ReadsTo readValue (.number (.integer (-(n : Int)))) (ascii '-' :: (digits n ++ s)) s := by
  refine .of_succ (by simp only [List.length_cons, List.length_append]; omega) fun bound _ => ?_
  rw [readValue, skipBlanks_cons rfl]
  simp only [if_neg (by decide : ascii '-' ≠ ascii '"'), if_neg (by decide : ascii '-' ≠ ascii '\x7b'),
    if_neg (by decide : ascii '-' ≠ ascii '['), if_true, readNumber_negative hpos hn hs]
  rfl

theorem readsTo_characters (text : String) (s : List Char) :
    ReadsTo (fun _ => readString) text (utf8 (text.toList.foldr escapeOnto ('"' :: s))) (utf8 s) := by
  refine ⟨?_, fun _ _ => readString_foldr text s⟩
  have hle := length_utf8_foldr text.toList ('"' :: s)
  rw [utf8_cons_ascii (by decide), List.length_cons] at hle
  omega

theorem readsTo_string (text : String) (s : List Char) :
    ReadsTo readValue (.string text) (utf8 (stringOnto text s)) (utf8 s) := by
  obtain ⟨hshorter, hread⟩ := readsTo_characters text s
  rw [utf8_stringOnto]
  refine .of_succ (by simp only [List.length_cons]; omega) fun bound hbound => ?_
  rw [readValue, skipBlanks_cons rfl]
  simp only [if_true, readString_foldr]
  rfl

/-! ### Arrays -/

theorem ReadsTo.array {items : List Json} {s t : List UInt8} (h : ReadsTo (readItems · []) items s t) :
    ReadsTo readValue (.array items) (ascii '[' :: s) t := by
  obtain ⟨hshorter, hread⟩ := h
  refine .of_succ (by simp only [List.length_cons]; omega) fun bound hbound => ?_
  rw [List.length_cons] at hbound
  rw [readValue, skipBlanks_cons rfl]
  simp only [if_neg (by decide : ascii '[' ≠ ascii '"'), if_neg (by decide : ascii '[' ≠ ascii '\x7b'), if_true,
    hread bound (by omega)]
  rfl

theorem readsTo_close {done : List Json} {blanks : List UInt8} (hblanks : Blanks blanks) (t : List UInt8) :
    ReadsTo (readItems · done) done.reverse (blanks ++ ascii ']' :: t) t := by
  refine .of_succ (by simp only [List.length_append, List.length_cons]; omega) fun bound _ => ?_
  simp only [readItems, skipBlanks_append hblanks, skipBlanks_cons (b := ascii ']') rfl,
    if_true]

theorem ReadsTo.firstItem {v : Json} {items : List Json} {blanks s u t : List UInt8} (hblanks : Blanks blanks)
    (hstarts : StartsValue s) (hv : ReadsTo readValue v s u) (hitems : ReadsTo (readItems · [v]) items u t) :
    ReadsTo (readItems · []) items (blanks ++ s) t := by
  obtain ⟨hshorter, hread⟩ := hv
  obtain ⟨hshorter', hread'⟩ := hitems
  obtain ⟨b, rest, rfl, hblank, hbracket⟩ := hstarts
  refine .of_succ (by rw [List.length_append]; omega) fun bound hbound => ?_
  rw [List.length_append] at hbound
  simp only [readItems, skipBlanks_append hblanks, skipBlanks_cons hblank, if_neg hbracket, List.isEmpty_nil,
    if_true, hread bound (by omega), bind, Except.bind, hread' bound (by omega)]

theorem ReadsTo.nextItem {v : Json} {items done : List Json} {blanks s u t : List UInt8} (hdone : done ≠ [])
    (hblanks : Blanks blanks) (hstarts : StartsValue s) (hv : ReadsTo readValue v s u)
    (hitems : ReadsTo (readItems · (v :: done)) items u t) :
    ReadsTo (readItems · done) items (ascii ',' :: (blanks ++ s)) t := by
  obtain ⟨hshorter, hread⟩ := hv
  obtain ⟨hshorter', hread'⟩ := hitems
  obtain ⟨b, rest, rfl, hblank, hbracket⟩ := hstarts
  refine .of_succ (by rw [List.length_cons, List.length_append]; omega) fun bound hbound => ?_
  rw [List.length_cons, List.length_append] at hbound
  have hnonempty : done.isEmpty = false := List.isEmpty_eq_false_iff.2 hdone
  simp only [readItems, skipBlanks_append hblanks, skipBlanks_cons (b := ascii ',') rfl,
    if_neg (by decide : ascii ',' ≠ ascii ']'), hnonempty, if_true, skipBlanks_cons hblank, if_neg hbracket,
    hread bound (by omega), bind, Except.bind, hread' bound (by omega)]
  rfl

/-! ### Objects -/

theorem ReadsTo.object {fields : List (String × Json)} {s t : List UInt8}
    (h : ReadsTo (readFields · []) fields s t) : ReadsTo readValue (.object fields) (ascii '\x7b' :: s) t := by
  obtain ⟨hshorter, hread⟩ := h
  refine .of_succ (by simp only [List.length_cons]; omega) fun bound hbound => ?_
  rw [List.length_cons] at hbound
  rw [readValue, skipBlanks_cons rfl]
  simp only [if_neg (by decide : ascii '\x7b' ≠ ascii '"'), if_true, hread bound (by omega)]
  rfl

theorem readsTo_closeObject {done : List (String × Json)} {blanks : List UInt8} (hblanks : Blanks blanks)
    (t : List UInt8) : ReadsTo (readFields · done) done (blanks ++ ascii '\x7d' :: t) t := by
  refine .of_succ (by simp only [List.length_append, List.length_cons]; omega) fun bound _ => ?_
  simp only [readFields, skipBlanks_append hblanks, skipBlanks_cons (b := ascii '\x7d') rfl,
    if_true]

/-- Fields in key order stay in the order in which they are read. -/
theorem setField_append {key : String} {v : Json} {done : List (String × Json)}
    (h : ∀ field ∈ done, field.1 < key) : setField key v done = done ++ [(key, v)] := by
  induction done with
  | nil => rfl
  | cons field rest ih =>
    obtain ⟨hfield, hrest⟩ := List.forall_mem_cons.1 h
    have hnot : ¬ key < field.1 := String.lt_asymm hfield
    have hne : key ≠ field.1 := (String.ne_of_lt hfield).symm
    simp [setField, hnot, hne, ih hrest]

theorem readValue_append {blanks : List UInt8} (h : Blanks blanks) (bound : Nat) (s : List UInt8) :
    readValue bound (blanks ++ s) = readValue bound s := by
  cases bound with
  | zero => simp only [readValue]
  | succ bound => simp only [readValue, skipBlanks_append h]

/-- A reader takes a field off a text, which begins behind the opening quote of the key. -/
structure ReadsField (key : String) (v : Json) (s t : List UInt8) : Prop where
  shorter : t.length < s.length
  reads : ∀ bound, 3 * s.length ≤ bound + 3 * t.length → readField bound s = .ok (key, v, t)

theorem readsField {key : String} {v : Json} {blanks s u t : List UInt8} (hblanks : Blanks blanks)
    (hkey : ReadsTo (fun _ => readString) key s (ascii ':' :: (blanks ++ u))) (hv : ReadsTo readValue v u t) :
    ReadsField key v s t := by
  obtain ⟨hshorter, hread⟩ := hkey
  obtain ⟨hshorter', hread'⟩ := hv
  rw [List.length_cons, List.length_append] at hshorter
  refine ⟨by omega, fun bound hbound => ?_⟩
  cases bound with
  | zero => omega
  | succ bound =>
    have hstring : readString s = .ok (key, ascii ':' :: (blanks ++ u)) :=
      hread (3 * s.length) (by simp only [List.length_cons, List.length_append]; omega)
    simp only [readField, hstring, bind, Except.bind, skipBlanks_cons (b := ascii ':') rfl,
      if_true, readValue_append hblanks, hread' bound (by omega)]
    rfl

theorem ReadsTo.firstField {key : String} {v : Json} {fields : List (String × Json)} {blanks s u t : List UInt8}
    (hblanks : Blanks blanks) (h : ReadsField key v s u)
    (hfields : ReadsTo (readFields · [(key, v)]) fields u t) :
    ReadsTo (readFields · []) fields (blanks ++ ascii '"' :: s) t := by
  obtain ⟨hshorter, hread⟩ := h
  obtain ⟨hshorter', hread'⟩ := hfields
  refine .of_succ (by rw [List.length_append, List.length_cons]; omega) fun bound hbound => ?_
  rw [List.length_append, List.length_cons] at hbound
  simp only [readFields, skipBlanks_append hblanks, skipBlanks_cons (b := ascii '"') rfl,
    if_neg (by decide : ascii '"' ≠ ascii '\x7d'), List.isEmpty_nil, if_true, hread bound (by omega), bind,
    Except.bind, setField, hread' bound (by omega)]

theorem ReadsTo.nextField {key : String} {v : Json} {fields done : List (String × Json)}
    {blanks s u t : List UInt8} (hdone : done ≠ []) (hkeys : ∀ field ∈ done, field.1 < key)
    (hblanks : Blanks blanks) (h : ReadsField key v s u)
    (hfields : ReadsTo (readFields · (done ++ [(key, v)])) fields u t) :
    ReadsTo (readFields · done) fields (ascii ',' :: (blanks ++ ascii '"' :: s)) t := by
  obtain ⟨hshorter, hread⟩ := h
  obtain ⟨hshorter', hread'⟩ := hfields
  refine .of_succ (by simp only [List.length_append, List.length_cons]; omega) fun bound hbound => ?_
  simp only [List.length_append, List.length_cons] at hbound
  have hnonempty : done.isEmpty = false := List.isEmpty_eq_false_iff.2 hdone
  simp only [readFields, skipBlanks_append hblanks, skipBlanks_cons (b := ascii ',') rfl,
    skipBlanks_cons (b := ascii '"') rfl, if_neg (by decide : ascii ',' ≠ ascii '\x7d'),
    if_neg (by decide : ascii '"' ≠ ascii '\x7d'), hnonempty, if_true, hread bound (by omega), bind,
    Except.bind, setField_append hkeys, hread' bound (by omega)]
  rfl

/-! ### Written text -/

/-- Values that come back from their text: integers have to fit into 64 bits, fields stand in key order. -/
inductive Writable : Json → Prop where
  | null : Writable .null
  | bool (b : Bool) : Writable (.bool b)
  | integer {n : Int} (hlow : -2 ^ 63 ≤ n) (hhigh : n < 2 ^ 64) : Writable (.number (.integer n))
  | string (text : String) : Writable (.string text)
  | array {items : List Json} (hitems : ∀ v ∈ items, Writable v) : Writable (.array items)
  | object {fields : List (String × Json)} (hsorted : fields.Pairwise fun f g => f.1 < g.1)
      (hfields : ∀ field ∈ fields, Writable field.2) : Writable (.object fields)

/-- In front of any text that does not go on with a number, what is written reads as the value. -/
def ReadsBack (write : List Char → List Char) (v : Json) : Prop :=
  ∀ s, EndsNumber (utf8 s) → StartsValue (utf8 (write s)) ∧ ReadsTo readValue v (utf8 (write s)) (utf8 s)

/-- A number ends in front of a separator, a closing bracket or a blank. -/
theorem endsNumber_cons {c : Char} (hc : c ∈ [',', ']', '\x7d', ' ', '\n']) (s : List Char) :
    EndsNumber (utf8 (c :: s)) := by
  have hends : c.toNat < 128 ∧ isDigit (ascii c) = false ∧ ascii c ≠ ascii '.' ∧
      isExponentMark (ascii c) = false := by
    simp only [List.mem_cons, List.not_mem_nil, or_false] at hc
    rcases hc with rfl | rfl | rfl | rfl | rfl <;> decide
  obtain ⟨hascii, hrest⟩ := hends
  rw [utf8_cons_ascii hascii]
  intro b hb
  obtain rfl : ascii c = b := Option.some.inj hb
  exact hrest

theorem readsBack_integer {n : Int} (hlow : -2 ^ 63 ≤ n) (hhigh : n < 2 ^ 64) :
    ReadsBack (textOnto (Number.text (.integer n))) (.number (.integer n)) := by
  intro s hs
  by_cases hn : 0 ≤ n
  · obtain ⟨k, rfl⟩ := Int.eq_ofNat_of_zero_le hn
    have htext : utf8 (textOnto (Number.text (.integer k)) s) = digits k ++ utf8 s := by
      rw [textOnto, utf8_append, Number.text, Int.repr_eq_if, if_pos hn, Int.toNat_natCast, Nat.toList_repr,
        digits]
    rw [htext]
    refine ⟨?_, readsTo_natural (by omega) hs⟩
    cases hdigits : digits k with
    | nil => exact absurd hdigits (digits_ne_nil k)
    | cons b rest =>
      have hb : isDigit b = true := isDigit_of_mem_digits (hdigits ▸ List.mem_cons_self)
      exact ⟨b, rest ++ utf8 s, rfl, isBlank_of_isDigit hb, ne_of_isDigit hb rfl⟩
  · obtain ⟨k, rfl⟩ : ∃ k : Nat, n = -(k : Int) := ⟨(-n).toNat, by omega⟩
    have htext : utf8 (textOnto (Number.text (.integer (-(k : Int)))) s) =
        ascii '-' :: (digits k ++ utf8 s) := by
      rw [textOnto, utf8_append, Number.text, Int.repr_eq_if, if_neg hn, Int.neg_neg, Int.toNat_natCast,
        String.toList_append, Nat.toList_repr, utf8_append, List.append_assoc]
      rfl
    rw [htext]
    exact ⟨⟨_, _, rfl, rfl, by decide⟩, readsTo_negative (by omega) (by omega) hs⟩

theorem blanks_utf8 {s : List Char} (h : ∀ c ∈ s, c = ' ' ∨ c = '\n') : Blanks (utf8 s) := by
  induction s with
  | nil => exact blanks_nil
  | cons c rest ih =>
    obtain ⟨hc, hrest⟩ := List.forall_mem_cons.1 h
    have hblank : c.toNat < 128 ∧ isBlank (ascii c) = true := by rcases hc with rfl | rfl <;> decide
    rw [utf8_cons_ascii hblank.1]
    exact List.forall_mem_cons.2 ⟨hblank.2, ih hrest⟩

end Treewalk.Json

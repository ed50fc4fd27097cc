import Treewalk.Proofs.JsonText

/-! Values are read back from their text in any layout.

A `Layout` says where the blanks go. The compact and the indented text of a value are two layouts of it, and
`readsBack_onto` follows the rules of reading along any. -/
namespace Treewalk.Json

/-- Where a text has blanks: in front of what stands inside so many brackets, and behind the colon of a field. -/
structure Layout where
  line : Nat → List Char
  gap : List Char
  line_blank : ∀ level, ∀ c ∈ line level, c = ' ' ∨ c = '\n'
  gap_blank : ∀ c ∈ gap, c = ' ' ∨ c = '\n'

namespace Layout

def oneLine : Layout where
  line _ := []
  gap := []
  line_blank _ := List.forall_mem_nil _
  gap_blank := List.forall_mem_nil _

def indented : Layout where
  line level := '\n' :: List.replicate (2 * level) ' '
  gap := [' ']
  line_blank := by
    intro level
    refine List.forall_mem_cons.2 ⟨.inr rfl, fun c hc => ?_⟩
    exact .inl (List.eq_of_mem_replicate hc)
  gap_blank := List.forall_mem_singleton.2 (.inl rfl)

variable (L : Layout)

mutual

def onto (level : Nat) : Json → List Char → List Char
  | null, rest => textOnto "null" rest
  | bool b, rest => textOnto (if b then "true" else "false") rest
  | number n, rest => textOnto n.text rest
  | string s, rest => stringOnto s rest
  | array [], rest => '[' :: ']' :: rest
  | array (v :: items), rest =>
      '[' :: (L.line (level + 1) ++
        onto (level + 1) v (itemsOnto (level + 1) items (L.line level ++ ']' :: rest)))
  | object [], rest => '\x7b' :: '\x7d' :: rest
  | object ((k, v) :: fields), rest =>
      '\x7b' :: (L.line (level + 1) ++ stringOnto k (':' :: (L.gap ++
        onto (level + 1) v (fieldsOnto (level + 1) fields (L.line level ++ '\x7d' :: rest)))))

def itemsOnto (level : Nat) : List Json → List Char → List Char
  | [], rest => rest
  | v :: items, rest => ',' :: (L.line level ++ onto level v (itemsOnto level items rest))

def fieldsOnto (level : Nat) : List (String × Json) → List Char → List Char
  | [], rest => rest
  | (k, v) :: fields, rest =>
      ',' :: (L.line level ++ stringOnto k (':' :: (L.gap ++ onto level v (fieldsOnto level fields rest))))

end

mutual

theorem onto_oneLine (level : Nat) (v : Json) (rest : List Char) : oneLine.onto level v rest = compactOnto v rest := by
  cases v with
  | array items =>
    cases items with
    | nil => rw [onto, compactOnto]
    | cons v items =>
      rw [onto, onto_oneLine, itemsOnto_oneLine, compactOnto]
      rfl
  | object fields =>
    cases fields with
    | nil => rw [onto, compactOnto]
    | cons field fields =>
      rw [onto, onto_oneLine, fieldsOnto_oneLine, compactOnto]
      rfl
  | _ => rw [onto, compactOnto]

theorem itemsOnto_oneLine (level : Nat) (items : List Json) (rest : List Char) :
    oneLine.itemsOnto level items rest = compactItemsOnto items rest := by
  cases items with
  | nil => rw [itemsOnto, compactItemsOnto]
  | cons v items =>
    rw [itemsOnto, onto_oneLine, itemsOnto_oneLine, compactItemsOnto]
    rfl

theorem fieldsOnto_oneLine (level : Nat) (fields : List (String × Json)) (rest : List Char) :
    oneLine.fieldsOnto level fields rest = compactFieldsOnto fields rest := by
  cases fields with
  | nil => rw [fieldsOnto, compactFieldsOnto]
  | cons field fields =>
    rw [fieldsOnto, onto_oneLine, fieldsOnto_oneLine, compactFieldsOnto]
    rfl

end

mutual

theorem onto_indented (level : Nat) (v : Json) (rest : List Char) :
    indented.onto level v rest = prettyOnto level v rest := by
  cases v with
  | array items =>
    cases items with
    | nil => rw [onto, prettyOnto]
    | cons v items =>
      rw [onto, onto_indented, itemsOnto_indented, prettyOnto]
      rfl
  | object fields =>
    cases fields with
    | nil => rw [onto, prettyOnto]
    | cons field fields =>
      rw [onto, onto_indented, fieldsOnto_indented, prettyOnto]
      rfl
  | _ => rw [onto, prettyOnto]

theorem itemsOnto_indented (level : Nat) (items : List Json) (rest : List Char) :
    indented.itemsOnto level items rest = prettyItemsOnto level items rest := by
  cases items with
  | nil => rw [itemsOnto, prettyItemsOnto]
  | cons v items =>
    rw [itemsOnto, onto_indented, itemsOnto_indented, prettyItemsOnto]
    rfl

theorem fieldsOnto_indented (level : Nat) (fields : List (String × Json)) (rest : List Char) :
    indented.fieldsOnto level fields rest = prettyFieldsOnto level fields rest := by
  cases fields with
  | nil => rw [fieldsOnto, prettyFieldsOnto]
  | cons field fields =>
    rw [fieldsOnto, onto_indented, fieldsOnto_indented, prettyFieldsOnto]
    rfl

end

mutual

theorem onto_append (level : Nat) (v : Json) (s u : List Char) : L.onto level v s ++ u = L.onto level v (s ++ u) := by
  cases v with
  | string text => simp only [onto, stringOnto_append]
  | array items =>
    cases items with
    | nil => simp only [onto, List.cons_append]
    | cons v items => simp only [onto, List.cons_append, List.append_assoc, onto_append, itemsOnto_append]
  | object fields =>
    cases fields with
    | nil => simp only [onto, List.cons_append]
    | cons field fields =>
      simp only [onto, List.cons_append, List.append_assoc, stringOnto_append, onto_append, fieldsOnto_append]
  | _ => simp only [onto, textOnto, List.append_assoc]

theorem itemsOnto_append (level : Nat) (items : List Json) (s u : List Char) :
    L.itemsOnto level items s ++ u = L.itemsOnto level items (s ++ u) := by
  cases items with
  | nil => simp only [itemsOnto]
  | cons v items => simp only [itemsOnto, List.cons_append, List.append_assoc, onto_append, itemsOnto_append]

theorem fieldsOnto_append (level : Nat) (fields : List (String × Json)) (s u : List Char) :
    L.fieldsOnto level fields s ++ u = L.fieldsOnto level fields (s ++ u) := by
  cases fields with
  | nil => simp only [fieldsOnto]
  | cons field fields =>
    simp only [fieldsOnto, List.cons_append, List.append_assoc, stringOnto_append, onto_append, fieldsOnto_append]

end

theorem endsNumber_line (level : Nat) {c : Char} (hc : c = ']' ∨ c = '\x7d') (s : List Char) :
    EndsNumber (utf8 (L.line level ++ c :: s)) := by
  have hblank := L.line_blank level
  cases hline : L.line level with
  | nil => exact endsNumber_cons (by rcases hc with rfl | rfl <;> simp) s
  | cons b rest =>
    rw [hline] at hblank
    have hb := hblank b List.mem_cons_self
    exact endsNumber_cons (by rcases hb with rfl | rfl <;> simp) _

theorem endsNumber_items (level outer : Nat) (items : List Json) (s : List Char) :
    EndsNumber (utf8 (L.itemsOnto level items (L.line outer ++ ']' :: s))) := by
  cases items with
  | nil =>
    rw [itemsOnto]
    exact L.endsNumber_line outer (.inl rfl) s
  | cons v items =>
    rw [itemsOnto]
    exact endsNumber_cons (by simp) _

theorem endsNumber_fields (level outer : Nat) (fields : List (String × Json)) (s : List Char) :
    EndsNumber (utf8 (L.fieldsOnto level fields (L.line outer ++ '\x7d' :: s))) := by
  cases fields with
  | nil =>
    rw [fieldsOnto]
    exact L.endsNumber_line outer (.inr rfl) s
  | cons field fields =>
    rw [fieldsOnto]
    exact endsNumber_cons (by simp) _

theorem readsTo_items {level : Nat} (outer : Nat) {items : List Json} (h : ∀ v ∈ items, ReadsBack (L.onto level v) v)
    {done : List Json} (hdone : done ≠ []) (s : List Char) :
    ReadsTo (readItems · done) (done.reverse ++ items)
      (utf8 (L.itemsOnto level items (L.line outer ++ ']' :: s))) (utf8 s) := by
  induction items generalizing done with
  | nil =>
    rw [itemsOnto, List.append_nil, utf8_append, utf8_cons_ascii (by decide)]
    exact readsTo_close (blanks_utf8 (L.line_blank outer)) (utf8 s)
  | cons v items ih =>
    obtain ⟨hv, hitems⟩ := List.forall_mem_cons.1 h
    obtain ⟨hstarts, hread⟩ := hv _ (L.endsNumber_items level outer items s)
    have hrest := ih hitems (List.cons_ne_nil v done)
    rw [List.reverse_cons, List.append_assoc, List.singleton_append] at hrest
    rw [itemsOnto, utf8_cons_ascii (by decide), utf8_append]
    exact .nextItem hdone (blanks_utf8 (L.line_blank level)) hstarts hread hrest

theorem readsField_onto {level : Nat} {key : String} {v : Json} (hv : ReadsBack (L.onto level v) v) {s : List Char}
    (hs : EndsNumber (utf8 s)) :
    ReadsField key v (utf8 (key.toList.foldr escapeOnto ('"' :: ':' :: (L.gap ++ L.onto level v s)))) (utf8 s) := by
  have hkey := readsTo_characters key (':' :: (L.gap ++ L.onto level v s))
  rw [utf8_cons_ascii (c := ':') (by decide), utf8_append] at hkey
  exact readsField (blanks_utf8 L.gap_blank) hkey (hv s hs).2

theorem readsTo_fields {level : Nat} (outer : Nat) {fields : List (String × Json)}
    (h : ∀ field ∈ fields, ReadsBack (L.onto level field.2) field.2) {done : List (String × Json)}
    (hdone : done ≠ []) (hsorted : (done ++ fields).Pairwise fun f g => f.1 < g.1) (s : List Char) :
    ReadsTo (readFields · done) (done ++ fields)
      (utf8 (L.fieldsOnto level fields (L.line outer ++ '\x7d' :: s))) (utf8 s) := by
  induction fields generalizing done with
  | nil =>
    rw [fieldsOnto, List.append_nil, utf8_append, utf8_cons_ascii (by decide)]
    exact readsTo_closeObject (blanks_utf8 (L.line_blank outer)) (utf8 s)
  | cons field fields ih =>
    obtain ⟨key, v⟩ := field
    obtain ⟨hv, hfields⟩ := List.forall_mem_cons.1 h
    have hkeys : ∀ field ∈ done, field.1 < key := fun field hfield =>
      (List.pairwise_append.1 hsorted).2.2 field hfield (key, v) List.mem_cons_self
    rw [List.append_cons] at hsorted
    have hrest := ih hfields (List.append_ne_nil_of_right_ne_nil done (List.cons_ne_nil _ _)) hsorted
    have hfield : ReadsField key v _ _ := L.readsField_onto hv (L.endsNumber_fields level outer fields s)
    rw [List.append_cons, fieldsOnto, utf8_cons_ascii (by decide), utf8_append, utf8_stringOnto]
    exact .nextField hdone hkeys (blanks_utf8 (L.line_blank level)) hfield hrest

theorem readsBack_onto {v : Json} (h : Writable v) (level : Nat) : ReadsBack (L.onto level v) v := by
  induction h generalizing level with
  | null =>
    intro s _
    rw [onto]
    exact ⟨⟨_, _, rfl, rfl, by decide⟩, readsTo_null s⟩
  | bool b =>
    intro s _
    rw [onto]
    refine ⟨?_, readsTo_bool b s⟩
    cases b
    · exact ⟨_, _, rfl, rfl, by decide⟩
    · exact ⟨_, _, rfl, rfl, by decide⟩
  | integer hlow hhigh =>
    intro s hs
    rw [onto]
    exact readsBack_integer hlow hhigh s hs
  | string text =>
    intro s _
    rw [onto]
    refine ⟨?_, readsTo_string text s⟩
    rw [utf8_stringOnto]
    exact ⟨_, _, rfl, rfl, by decide⟩
  | @array items _ ih =>
    intro s _
    cases items with
    | nil =>
      rw [onto, utf8_cons_ascii (by decide), utf8_cons_ascii (by decide)]
      exact ⟨⟨_, _, rfl, rfl, by decide⟩, .array (readsTo_close blanks_nil (utf8 s))⟩
    | cons v items =>
      obtain ⟨hv, hitems⟩ := List.forall_mem_cons.1 ih
      obtain ⟨hstarts, hread⟩ := hv (level + 1) _ (L.endsNumber_items (level + 1) level items s)
      have hrest := L.readsTo_items level (fun v hv => hitems v hv (level + 1)) (List.cons_ne_nil v []) s
      rw [onto, utf8_cons_ascii (by decide), utf8_append]
      refine ⟨⟨_, _, rfl, rfl, by decide⟩, .array ?_⟩
      exact .firstItem (blanks_utf8 (L.line_blank (level + 1))) hstarts hread hrest
  | @object fields hsorted _ ih =>
    intro s _
    cases fields with
    | nil =>
      rw [onto, utf8_cons_ascii (by decide), utf8_cons_ascii (by decide)]
      exact ⟨⟨_, _, rfl, rfl, by decide⟩, .object (readsTo_closeObject blanks_nil (utf8 s))⟩
    | cons field fields =>
      obtain ⟨key, v⟩ := field
      obtain ⟨hv, hfields⟩ := List.forall_mem_cons.1 ih
      have hfield : ReadsField key v _ _ :=
        L.readsField_onto (hv (level + 1)) (L.endsNumber_fields (level + 1) level fields s)
      have hrest := L.readsTo_fields level (fun field hfield => hfields field hfield (level + 1))
        (List.cons_ne_nil (key, v) []) hsorted s
      rw [onto, utf8_cons_ascii (by decide), utf8_append, utf8_stringOnto]
      refine ⟨⟨_, _, rfl, rfl, by decide⟩, .object ?_⟩
      exact .firstField (blanks_utf8 (L.line_blank (level + 1))) hfield hrest

end Layout

/-- Blanks behind a value do not matter. -/
theorem read_of_readsTo {text : String} {v : Json} {blanks : List UInt8} (hblanks : Blanks blanks)
    (h : ReadsTo readValue v (utf8 text.toList) blanks) : read text.toUTF8 = .ok v := by
  have hbytes : text.toUTF8.data.toList = utf8 text.toList := by
    rw [String.toUTF8_eq_toByteArray, ← String.utf8Encode_toList, ← toByteArray_utf8]
    exact List.toList_data_toByteArray
  have hvalue := h.reads (3 * (utf8 text.toList).length + 3) (by omega)
  have hrest : skipBlanks blanks = [] := by
    rw [← List.append_nil blanks, skipBlanks_append hblanks]
    rfl
  have htext : readText (utf8 text.toList) = .ok v := by
    simp only [readText, hvalue, bind, Except.bind, hrest]
  simp only [read, hbytes, htext]

theorem read_compact {v : Json} (h : Writable v) : read v.compact.toUTF8 = .ok v := by
  obtain ⟨-, hread⟩ := Layout.oneLine.readsBack_onto h 0 [] nofun
  rw [Layout.onto_oneLine] at hread
  rw [compact]
  refine read_of_readsTo blanks_nil ?_
  rw [String.toList_ofList]
  exact hread

/-- Reading the indented text of a value, with the end of its last line, gives the value. -/
theorem read_pretty_line {v : Json} (h : Writable v) : read (v.pretty ++ "\n").toUTF8 = .ok v := by
  have hend : Blanks (utf8 ['\n']) := blanks_utf8 (List.forall_mem_singleton.2 (.inr rfl))
  obtain ⟨-, hread⟩ := Layout.indented.readsBack_onto h 0 ['\n'] (endsNumber_cons (by simp) [])
  refine read_of_readsTo hend ?_
  have htext : (v.pretty ++ "\n").toList = Layout.indented.onto 0 v ['\n'] := by
    rw [pretty, String.toList_append, String.toList_ofList, ← Layout.onto_indented]
    exact Layout.indented.onto_append 0 v [] ['\n']
  rw [htext]
  exact hread

end Treewalk.Json

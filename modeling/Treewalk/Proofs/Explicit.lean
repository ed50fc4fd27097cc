import Mathlib.Data.Set.Function
import Treewalk.Proofs.Parts

/-! Documents that leave nothing out and add nothing.

What is written for a term or a program states every location in full and has no field that the decoder passes over.
Documents of this form are called explicit, whatever the order of their fields. Nothing is lost in decoding them: the
document of what they decode to is the same again, in key order. -/
namespace Treewalk

open Document

namespace Document

open Json

def HasExactly (keys : List String) (fields : List (String × Json)) : Prop :=
  ∀ key, key ∈ fields.map Prod.fst ↔ key ∈ keys

def Role.parametersIn : Role → Json → List Json
  | .parameter, v => [v]
  | .parameters, .array items => items
  | _, _ => []

def Role.termsIn : Role → Json → List Json
  | .term, v => [v]
  | .terms, .array items => items
  | _, _ => []

inductive ExplicitLocation : Json → Prop
  | mk {fields : List (String × Json)} (keys : HasExactly ["start", "end", "filename"] fields) :
      ExplicitLocation (.object fields)

inductive ExplicitParameter : Json → Prop
  | mk {fields : List (String × Json)} (keys : HasExactly ["text", "location"] fields)
      (location : ∀ v, get? "location" fields = some v → ExplicitLocation v) : ExplicitParameter (.object fields)

/-- Every term in the value has the fields of its kind and no others, and so have its parameters and locations. -/
inductive ExplicitTerm : Json → Prop
  | node {fields : List (String × Json)} (kind : Term.Kind) (isKind : get? "kind" fields = some (.string kind.name))
      (keys : HasExactly kind.keys fields)
      (location : ∀ v, get? "location" fields = some v → ExplicitLocation v)
      (parameters : ∀ name role v, (name, role) ∈ kind.layout → get? name fields = some v →
        ∀ u ∈ role.parametersIn v, ExplicitParameter u)
      (terms : ∀ name role v, (name, role) ∈ kind.layout → get? name fields = some v →
        ∀ u ∈ role.termsIn v, ExplicitTerm u) : ExplicitTerm (.object fields)

inductive ExplicitProgram : Json → Prop
  | file {fields : List (String × Json)} (name : String)
      (keys : HasExactly ["kind", "name", "location", "expression"] fields)
      (isKind : get? "kind" fields = some (.string "File")) (isName : get? "name" fields = some (.string name))
      (location : ∀ v, get? "location" fields = some v → ExplicitLocation v)
      (expression : ∀ v, get? "expression" fields = some v → ExplicitTerm v) : ExplicitProgram (.object fields)

variable {keys : List String} {fields fields' : List (String × Json)}

/-- An object in key order is known by what it has to hold for each of its keys. -/
theorem HasExactly.inKeyOrder_eq (hkeys : HasExactly keys fields) (hkeys' : fields'.map Prod.fst = keys)
    (h : ∀ field ∈ fields', ∃ v, get? field.1 fields = some v ∧ v.inKeyOrder = field.2) :
    (Json.object fields).inKeyOrder = .object (orderFields fields') := by
  rw [inKeyOrder]
  congr 1
  apply (sorted_fieldsInKeyOrder fields).eq_of_get?_eq (sorted_orderFields fields')
  intro key
  rw [get?_fieldsInKeyOrder, get?_orderFields]
  cases hfound : get? key fields' with
  | none =>
    cases hv : get? key fields with
    | none => rfl
    | some v =>
      have hkey : key ∈ fields'.map Prod.fst := hkeys' ▸ (hkeys key).1 (mem_keys_iff.2 ⟨v, hv⟩)
      obtain ⟨w, hw⟩ := mem_keys_iff.1 hkey
      rw [hfound] at hw
      cases hw
  | some w =>
    obtain ⟨v, hv, hw⟩ := h (key, w) (mem_of_get?_eq_some hfound)
    rw [hv, Option.map_some, hw]

theorem hasExactly_of_perm (h : (fields.map Prod.fst).Perm keys) : HasExactly keys fields := fun _ => h.mem_iff

theorem hasExactly_orderFields (h : fields.map Prod.fst = keys) : HasExactly keys (orderFields fields) := by
  intro key
  rw [← h, mem_keys_iff, mem_keys_iff, get?_orderFields]

end Document

namespace Location

theorem explicit_toJson (l : Location) : ExplicitLocation l.toJson := by
  rw [toJson_eq]
  exact .mk (hasExactly_orderFields rfl)

theorem toJson_of_isLocation {v : Json} {l : Location} (hexplicit : ExplicitLocation v) (h : IsLocation v l) :
    v.inKeyOrder = l.toJson := by
  obtain ⟨keys⟩ := hexplicit
  obtain ⟨start, stop, filename⟩ := isLocation_object_iff.1 h
  rw [toJson_eq]
  apply keys.inKeyOrder_eq rfl
  simp [start, stop, filename, Json.ofNat]

/-- An explicit node states its location. -/
theorem toJson_of_placedAt {keys : List String} {fields : List (String × Json)} {l : Location}
    (hkeys : HasExactly keys fields) (hkey : "location" ∈ keys)
    (hexplicit : ∀ v, Json.get? "location" fields = some v → ExplicitLocation v) (h : PlacedAt fields l) :
    ∃ v, Json.get? "location" fields = some v ∧ v.inKeyOrder = l.toJson := by
  obtain ⟨v, hv⟩ := Json.mem_keys_iff.1 ((hkeys "location").2 hkey)
  refine ⟨v, hv, ?_⟩
  cases h with
  | absent location =>
    rw [hv] at location
    cases location
  | null location =>
    cases hexplicit .null location
  | given location isLocation ordered =>
    rw [hv] at location
    cases location
    exact toJson_of_isLocation (hexplicit v hv) isLocation

end Location

namespace Parameter

theorem explicit_toJson (p : Parameter) : ExplicitParameter p.toJson := by
  rw [toJson_eq]
  refine .mk (hasExactly_orderFields rfl) ?_
  intro v hv
  rw [Json.get?_orderFields] at hv
  cases hv
  exact p.location.explicit_toJson

theorem toJson_of_ofJson {v : Json} {p : Parameter} (hexplicit : ExplicitParameter v)
    (h : Parameter.ofJson v = .ok p) : v.inKeyOrder = p.toJson := by
  obtain ⟨keys, location⟩ := hexplicit
  obtain ⟨_, hfields, hl, htext⟩ := Parameter.ofJson_eq_ok_iff.1 h
  cases hfields
  have hplace := Location.toJson_of_placedAt keys (by decide) location (nodeLocation_eq_ok_iff.1 hl)
  rw [toJson_eq]
  apply keys.inKeyOrder_eq rfl
  simpa [htext] using hplace

end Parameter

namespace Document

open Json

theorem map_inKeyOrder_eq {α : Type} {decode : Json → Except DecodeError α} {encode : α → Json}
    {Explicit : Json → Prop} {items : List Json} {as : List α}
    (hitems : List.Forall₂ (fun v a => decode v = .ok a) items as) (hexplicit : ∀ v ∈ items, Explicit v)
    (h : ∀ a ∈ as, ∀ v, Explicit v → decode v = .ok a → v.inKeyOrder = encode a) :
    items.map inKeyOrder = as.map encode := by
  induction hitems with
  | nil => rfl
  | cons hv _ ih =>
    obtain ⟨hfirst, hrest⟩ := List.forall_mem_cons.1 hexplicit
    obtain ⟨ha, has⟩ := List.forall_mem_cons.1 h
    rw [List.map_cons, List.map_cons, ha _ hfirst hv, ih hrest has]

namespace Part

variable {part : Part} {v : Json}

theorem toJson_of_decodedFrom (h : part.DecodedFrom v)
    (hparameters : ∀ u ∈ part.role.parametersIn v, ExplicitParameter u)
    (hterms : ∀ u ∈ part.role.termsIn v, ExplicitTerm u)
    (ih : ∀ t ∈ part.children, ∀ u, ExplicitTerm u → Term.ofJson u = .ok t → u.inKeyOrder = t.toJson) :
    v.inKeyOrder = part.toJson := by
  cases part with
  | integer n => exact inKeyOrder_eq_number.2 h
  | text s => exact inKeyOrder_eq_string.2 h
  | truth b => exact inKeyOrder_eq_bool.2 h
  | operator o => exact inKeyOrder_eq_string.2 h
  | parameter p => exact Parameter.toJson_of_ofJson (hparameters v List.mem_cons_self) h
  | parameters ps =>
    obtain ⟨items, rfl, hitems⟩ := h
    rw [inKeyOrder_array, toJson,
      map_inKeyOrder_eq hitems hparameters fun p _ u hu hp => Parameter.toJson_of_ofJson hu hp]
  | term t => exact ih t List.mem_cons_self v (hterms v List.mem_cons_self) h
  | terms ts =>
    obtain ⟨items, rfl, hitems⟩ := h
    rw [inKeyOrder_array, toJson, map_inKeyOrder_eq hitems hterms ih]

theorem explicit_parametersIn (part : Part) : ∀ u ∈ part.role.parametersIn part.toJson, ExplicitParameter u := by
  cases part with
  | parameter p => exact List.forall_mem_singleton.2 p.explicit_toJson
  | parameters ps =>
    intro u hu
    obtain ⟨p, -, rfl⟩ := List.mem_map.1 hu
    exact p.explicit_toJson
  | _ => exact List.forall_mem_nil _

theorem termsIn_toJson (part : Part) : part.role.termsIn part.toJson = part.children.map Term.toJson := by
  cases part <;> rfl

end Part

end Document

namespace Term

theorem explicit_toJson (t : Term) : ExplicitTerm t.toJson := by
  induction t using childInduction with
  | step t ih =>
    rw [toJson_eq]
    refine .node t.kind ?_ (hasExactly_orderFields t.keys_fields) ?_ ?_ ?_
    · rw [Json.get?_orderFields]
      rfl
    · intro v hv
      rw [Json.get?_orderFields] at hv
      cases hv
      exact t.location.explicit_toJson
    · intro name role v hrole hv
      obtain ⟨part, -, rfl, hpart⟩ := exists_part hrole
      rw [Json.get?_orderFields, hpart] at hv
      cases hv
      exact part.explicit_parametersIn
    · intro name role v hrole hv u hu
      obtain ⟨part, hmem, rfl, hpart⟩ := exists_part hrole
      rw [Json.get?_orderFields, hpart] at hv
      cases hv
      rw [Part.termsIn_toJson] at hu
      obtain ⟨child, hchild, rfl⟩ := List.mem_map.1 hu
      exact ih child (mem_children_of_mem_parts hmem hchild)

theorem toJson_of_ofJson {v : Json} {t : Term} (hexplicit : ExplicitTerm v) (h : Term.ofJson v = .ok t) :
    v.inKeyOrder = t.toJson := by
  induction t using childInduction generalizing v with
  | step t ih =>
    obtain ⟨kind, isKind, keys, location, parameters, terms⟩ := hexplicit
    obtain ⟨hkind, hl, hparts⟩ := ofJson_object_eq_ok_iff.1 h
    obtain rfl : kind = t.kind := by
      rw [isKind] at hkind
      have hname : kind.name = t.kind.name := by simpa using hkind
      simpa [Kind.ofName?_name] using congrArg Kind.ofName? hname
    have hplace := Location.toJson_of_placedAt keys (by simp [Kind.keys]) location hl
    rw [toJson_eq]
    apply keys.inKeyOrder_eq t.keys_fields
    have hname : (Json.string t.kind.name).inKeyOrder = .string t.kind.name := Json.inKeyOrder_eq_string.2 rfl
    refine List.forall_mem_cons.2 ⟨⟨_, hkind, hname⟩, List.forall_mem_cons.2 ⟨hplace, ?_⟩⟩
    intro field hfield
    obtain ⟨⟨name, part⟩, hpart, rfl⟩ := List.mem_map.1 hfield
    obtain ⟨w, hw, hdecoded⟩ := hparts (name, part) hpart
    have hrole : (name, part.role) ∈ t.kind.layout := by
      rw [layout_kind]
      exact List.mem_map.2 ⟨(name, part), hpart, rfl⟩
    refine ⟨w, hw, ?_⟩
    apply Part.toJson_of_decodedFrom hdecoded (parameters name part.role w hrole hw) (terms name part.role w hrole hw)
    intro child hchild u hu hdecode
    exact ih child (mem_children_of_mem_parts hpart hchild) hu hdecode

end Term

namespace Program

theorem explicit_toJson (p : Program) : ExplicitProgram p.toJson := by
  rw [toJson_eq]
  refine .file p.name (hasExactly_orderFields rfl) ?_ ?_ ?_ ?_
  · rw [Json.get?_orderFields]
    rfl
  · rw [Json.get?_orderFields]
    rfl
  · intro v hv
    rw [Json.get?_orderFields] at hv
    cases hv
    exact p.location.explicit_toJson
  · intro v hv
    rw [Json.get?_orderFields] at hv
    cases hv
    exact p.expression.explicit_toJson

/-- A file that says that it is one and has a name. -/
theorem ofJson_file_eq_ok_iff {fields : List (String × Json)} {name : String} {p : Program}
    (isKind : Json.get? "kind" fields = some (.string "File"))
    (isName : Json.get? "name" fields = some (.string name)) :
    Program.ofJson (.object fields) = .ok p ↔
      name = p.name ∧ PlacedAt fields p.location ∧ HoldsTerm fields "expression" p.expression := by
  have hkind : checkFileKind fields = .ok () := checkFileKind_eq_ok_iff.2 (.given isKind)
  have hname : decodeName p.location fields = .ok name := decodeName_eq_ok_iff.2 (.given isName)
  simp only [Program.ofJson_eq_ok_iff, Json.object.injEq, exists_eq_left', hkind, hname, nodeLocation_eq_ok_iff,
    Except.ok.injEq, true_and]
  tauto

theorem ofJson_inKeyOrder {v : Json} {p : Program} (hexplicit : ExplicitProgram v) :
    Program.ofJson v.inKeyOrder = .ok p ↔ Program.ofJson v = .ok p := by
  cases hexplicit with
  | @file fields name keys isKind isName =>
    have isKind' : Json.get? "kind" (Json.fieldsInKeyOrder fields) = some (.string "File") := by
      simp [isKind]
    have isName' : Json.get? "name" (Json.fieldsInKeyOrder fields) = some (.string name) := by
      simp [isName]
    rw [Json.inKeyOrder, ofJson_file_eq_ok_iff isKind isName, ofJson_file_eq_ok_iff isKind' isName',
      placedAt_inKeyOrder]
    simp [HoldsTerm, Term.ofJson_inKeyOrder]

theorem toJson_of_ofJson {v : Json} {p : Program} (hexplicit : ExplicitProgram v) (h : Program.ofJson v = .ok p) :
    v.inKeyOrder = p.toJson := by
  obtain ⟨name, keys, isKind, isName, location, expression⟩ := hexplicit
  obtain ⟨rfl, hl, w, hw, hterm⟩ := (ofJson_file_eq_ok_iff isKind isName).1 h
  have hplace := Location.toJson_of_placedAt keys (by decide) location hl
  have hexpression := Term.toJson_of_ofJson (expression w hw) hterm
  rw [toJson_eq]
  apply keys.inKeyOrder_eq rfl
  simpa [isKind, isName, hw, hexpression] using hplace

end Program

namespace Document

section Exact

variable {α : Type} {encode : α → Json} {decode : Json → Except DecodeError α} {Explicit : Json → Prop}
  {Ordered : α → Prop}

theorem decode_iff_of_explicit (hread : ∀ {a b}, decode (encode a) = .ok b ↔ Ordered a ∧ a = b)
    (horder : ∀ {v a}, Explicit v → (decode v.inKeyOrder = .ok a ↔ decode v = .ok a))
    (hwrite : ∀ {v a}, Explicit v → decode v = .ok a → v.inKeyOrder = encode a) {v : Json} (h : Explicit v) (a : α) :
    decode v = .ok a ↔ Ordered a ∧ encode a = v.inKeyOrder := by
  constructor
  · intro hdecode
    have hsame := hwrite h hdecode
    have hagain := (horder h).2 hdecode
    rw [hsame] at hagain
    exact ⟨(hread.1 hagain).1, hsame.symm⟩
  · rintro ⟨hordered, hsame⟩
    rw [← horder h, ← hsame]
    exact hread.2 ⟨hordered, rfl⟩

theorem bijOn_of_explicit (hread : ∀ {a b}, decode (encode a) = .ok b ↔ Ordered a ∧ a = b)
    (hexplicit : ∀ a, Explicit (encode a))
    (h : ∀ v a, Explicit v → (decode v = .ok a ↔ Ordered a ∧ encode a = v.inKeyOrder)) :
    Set.BijOn encode {a | Ordered a} {v | v.inKeyOrder = v ∧ Explicit v ∧ ∃ a, decode v = .ok a} := by
  refine ⟨?_, ?_, ?_⟩
  · intro a ha
    have hdecode := hread.2 ⟨ha, rfl⟩
    obtain ⟨-, horder⟩ := (h (encode a) a (hexplicit a)).1 hdecode
    exact ⟨horder.symm, hexplicit a, a, hdecode⟩
  · intro a _ b hb heq
    have hdecode := hread.2 ⟨hb, rfl⟩
    rw [← heq] at hdecode
    exact (hread.1 hdecode).2
  · rintro v ⟨horder, hv, a, ha⟩
    obtain ⟨hordered, hencode⟩ := (h v a hv).1 ha
    exact ⟨a, hordered, hencode.trans horder⟩

end Exact

/-- Every document that is written is explicit, and an explicit document decodes to a term exactly if it is the
document of the term, up to the order of fields, and no location in the term runs backwards. So terms of this sort and
explicit documents that decode stand for each other, and likewise programs and explicit files. -/
theorem explicit_documents_exactly :
    (∀ t : Term, ExplicitTerm t.toJson ∧ (t.Ordered → Term.ofJson t.toJson = .ok t)) ∧
    (∀ (v : Json) (t : Term), ExplicitTerm v → (Term.ofJson v = .ok t ↔ t.Ordered ∧ t.toJson = v.inKeyOrder)) ∧
    Set.BijOn Term.toJson {t | t.Ordered} {v | v.inKeyOrder = v ∧ ExplicitTerm v ∧ ∃ t, Term.ofJson v = .ok t} ∧
    (∀ p : Program, ExplicitProgram p.toJson ∧ (p.Ordered → Program.ofJson p.toJson = .ok p)) ∧
    (∀ (v : Json) (p : Program), ExplicitProgram v →
      (Program.ofJson v = .ok p ↔ p.Ordered ∧ p.toJson = v.inKeyOrder)) ∧
    Set.BijOn Program.toJson {p | p.Ordered}
      {v | v.inKeyOrder = v ∧ ExplicitProgram v ∧ ∃ p, Program.ofJson v = .ok p} := by
  have hterms (v : Json) (t : Term) (h : ExplicitTerm v) :
      Term.ofJson v = .ok t ↔ t.Ordered ∧ t.toJson = v.inKeyOrder :=
    decode_iff_of_explicit Term.ofJson_toJson_iff (fun _ => Term.ofJson_inKeyOrder _ _) Term.toJson_of_ofJson h t
  have hprograms (v : Json) (p : Program) (h : ExplicitProgram v) :
      Program.ofJson v = .ok p ↔ p.Ordered ∧ p.toJson = v.inKeyOrder :=
    decode_iff_of_explicit Program.ofJson_toJson_iff Program.ofJson_inKeyOrder Program.toJson_of_ofJson h p
  refine ⟨?_, hterms, bijOn_of_explicit Term.ofJson_toJson_iff Term.explicit_toJson hterms,
    ?_, hprograms, bijOn_of_explicit Program.ofJson_toJson_iff Program.explicit_toJson hprograms⟩
  · intro t
    exact ⟨t.explicit_toJson, fun h => Term.ofJson_toJson_iff.2 ⟨h, rfl⟩⟩
  · intro p
    exact ⟨p.explicit_toJson, fun h => Program.ofJson_toJson_iff.2 ⟨h, rfl⟩⟩

/-- A file with its fields in the order of their meaning, which is not key order. -/
theorem explicit_documents_exactly_of_integer :
    let place := Json.object [("start", .ofNat 3), ("end", .ofNat 7), ("filename", .string "a")]
    let term := Json.object [("kind", .string "Int"), ("value", .ofInt 5), ("location", place)]
    let file := Json.object [("kind", .string "File"), ("name", .string "p"), ("location", place), ("expression", term)]
    let t : Term := .int 5 ⟨⟨3, 7⟩, "a"⟩
    let p : Program := ⟨"p", t, ⟨⟨3, 7⟩, "a"⟩⟩
    (ExplicitTerm term ∧ Term.ofJson term = .ok t ∧ t.toJson = term.inKeyOrder ∧ t.toJson ≠ term) ∧
    (ExplicitProgram file ∧ Program.ofJson file = .ok p ∧ p.toJson = file.inKeyOrder ∧ p.toJson ≠ file) := by
  intro place term file t p
  have hplace : ExplicitLocation place := .mk (hasExactly_of_perm (by decide))
  have hterm : ExplicitTerm term := by
    refine .node .int rfl (hasExactly_of_perm (by decide)) ?_ ?_ ?_
    · intro v hv
      cases hv
      exact hplace
    · intro name role v hrole _
      cases List.mem_singleton.1 hrole
      exact List.forall_mem_nil _
    · intro name role v hrole _
      cases List.mem_singleton.1 hrole
      exact List.forall_mem_nil _
  have hfile : ExplicitProgram file := by
    refine .file "p" (hasExactly_of_perm (by decide)) rfl rfl ?_ ?_
    · intro v hv
      cases hv
      exact hplace
    · intro v hv
      cases hv
      exact hterm
  have hplaced {fields : List (String × Json)} (h : Json.get? "location" fields = some place) :
      PlacedAt fields ⟨⟨3, 7⟩, "a"⟩ := .given h (.object rfl rfl rfl) (by decide)
  have isTerm : IsTerm term t := .int rfl (hplaced rfl) rfl
  have hdecode := (termOfJson_eq_ok_iff term t).2 isTerm
  have hread := (programOfJson_eq_ok_iff file p).2 (.mk (.given rfl) (hplaced rfl) (.given rfl) rfl isTerm)
  obtain ⟨-, hterms, -, -, hfiles, -⟩ := explicit_documents_exactly
  obtain ⟨-, hencode⟩ := (hterms term t hterm).1 hdecode
  obtain ⟨-, hwritten⟩ := (hfiles file p hfile).1 hread
  exact ⟨⟨hterm, hdecode, hencode, by simp [t, term, Term.toJson]⟩,
    ⟨hfile, hread, hwritten, by simp [p, file, Program.toJson]⟩⟩

end Document

end Treewalk

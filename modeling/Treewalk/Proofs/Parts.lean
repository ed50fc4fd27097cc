import Treewalk.Proofs.Fields
import Treewalk.Proofs.KeyOrder

/-! Terms by their parts, and decoding up to the order of fields.

A term has one part for each field that its kind asks for. What holds of all kinds of terms is then shown by the roles
of fields, of which there are fewer, and both encoding and decoding are told by parts: see `toJson_eq` and
`ofJson_object_eq_ok_iff`. -/
namespace Treewalk

namespace Document

inductive Part where
  | integer (value : Int64)
  | text (value : String)
  | truth (value : Bool)
  | operator (value : Operator)
  | parameter (value : Parameter)
  | parameters (values : List Parameter)
  | term (value : Term)
  | terms (values : List Term)

namespace Part

def role : Part → Role
  | integer _ => .integer
  | text _ => .text
  | truth _ => .truth
  | operator _ => .operator
  | parameter _ => .parameter
  | parameters _ => .parameters
  | term _ => .term
  | terms _ => .terms

def toJson : Part → Json
  | integer n => .ofInt n.toInt
  | text s => .string s
  | truth b => .bool b
  | operator o => .string o.name
  | parameter p => p.toJson
  | parameters ps => .array (ps.map Parameter.toJson)
  | term t => t.toJson
  | terms ts => .array (ts.map Term.toJson)

def children : Part → List Term
  | term t => [t]
  | terms ts => ts
  | _ => []

/-- The part is what the decoder makes of a value. -/
def DecodedFrom (v : Json) : Part → Prop
  | integer n => v = .ofInt n.toInt
  | text s => v = .string s
  | truth b => v = .bool b
  | operator o => v = .string o.name
  | parameter p => Parameter.ofJson v = .ok p
  | parameters ps => ∃ items, v = .array items ∧ List.Forall₂ (fun v p => Parameter.ofJson v = .ok p) items ps
  | term t => Term.ofJson v = .ok t
  | terms ts => ∃ items, v = .array items ∧ List.Forall₂ (fun v t => Term.ofJson v = .ok t) items ts

end Part

end Document

open Document

theorem Location.toJson_eq (l : Location) : l.toJson = .object (Json.orderFields
    [("start", .ofNat l.start.toNat), ("end", .ofNat l.stop.toNat), ("filename", .string l.filename)]) := by
  simp only [Location.toJson, Json.orderFields, List.foldr_cons, List.foldr_nil, Json.setField, String.reduceLT,
    String.reduceEq, reduceIte]

theorem Parameter.toJson_eq (p : Parameter) : p.toJson = .object (Json.orderFields
    [("text", .string p.name), ("location", p.location.toJson)]) := by
  simp only [Parameter.toJson, Json.orderFields, List.foldr_cons, List.foldr_nil, Json.setField, String.reduceLT,
    String.reduceEq, reduceIte]

theorem Program.toJson_eq (p : Program) : p.toJson = .object (Json.orderFields [("kind", .string "File"),
    ("name", .string p.name), ("location", p.location.toJson), ("expression", p.expression.toJson)]) := by
  simp only [Program.toJson, Json.orderFields, List.foldr_cons, List.foldr_nil, Json.setField, String.reduceLT,
    String.reduceEq, reduceIte]

namespace Term

/-- The parts of a term, by the fields that they stand in. -/
def parts : Term → List (String × Part)
  | int value _ => [("value", .integer value)]
  | str value _ => [("value", .text value)]
  | bool value _ => [("value", .truth value)]
  | var name _ => [("text", .text name)]
  | function parameters body _ => [("parameters", .parameters parameters), ("value", .term body)]
  | call callee arguments _ => [("callee", .term callee), ("arguments", .terms arguments)]
  | letIn name value next _ => [("name", .parameter name), ("value", .term value), ("next", .term next)]
  | cond condition whenTrue whenFalse _ =>
      [("condition", .term condition), ("then", .term whenTrue), ("otherwise", .term whenFalse)]
  | binary operator left right _ => [("op", .operator operator), ("lhs", .term left), ("rhs", .term right)]
  | tuple a b _ => [("first", .term a), ("second", .term b)]
  | first operand _ => [("value", .term operand)]
  | second operand _ => [("value", .term operand)]
  | print operand _ => [("value", .term operand)]

/-- The fields of a term's document, in the order in which they are looked at. -/
def fields (t : Term) : List (String × Json) :=
  ("kind", .string t.kind.name) :: ("location", t.location.toJson) ::
    t.parts.map fun field => (field.1, field.2.toJson)

def Kind.keys (kind : Kind) : List String := "kind" :: "location" :: kind.layout.map Prod.fst

theorem Kind.nodup_keys (kind : Kind) : kind.keys.Nodup := by cases kind <;> decide

theorem layout_kind (t : Term) : t.kind.layout = t.parts.map fun field => (field.1, field.2.role) := by
  cases t <;> rfl

theorem keys_fields (t : Term) : t.fields.map Prod.fst = t.kind.keys := by
  simp [fields, Kind.keys, layout_kind, Function.comp_def]

/-- Every field of the layout belongs to a part, and no other field has its name. -/
theorem exists_part {t : Term} {name : String} {role : Role} (h : (name, role) ∈ t.kind.layout) :
    ∃ part, (name, part) ∈ t.parts ∧ part.role = role ∧ Json.get? name t.fields = some part.toJson := by
  rw [layout_kind] at h
  obtain ⟨⟨name, part⟩, hpart, heq⟩ := List.mem_map.1 h
  cases heq
  have hmem : (name, part.toJson) ∈ t.fields :=
    List.mem_cons_of_mem _ (List.mem_cons_of_mem _ (List.mem_map.2 ⟨(name, part), hpart, rfl⟩))
  have hnodup : (t.fields.map Prod.fst).Nodup := by
    rw [keys_fields]
    exact t.kind.nodup_keys
  exact ⟨part, hpart, rfl, Json.get?_eq_some_of_mem hnodup hmem⟩

theorem children_eq (t : Term) : t.children = t.parts.flatMap fun field => field.2.children := by
  cases t <;> simp [children, parts, Part.children]

theorem toJson_eq (t : Term) : t.toJson = .object (Json.orderFields t.fields) := by
  cases t <;>
    simp only [toJson, listToJson_eq_map, fields, kind, location, parts, Part.toJson, List.map_cons, List.map_nil,
      Json.orderFields, List.foldr_cons, List.foldr_nil, Json.setField, String.reduceLT, String.reduceEq, reduceIte]

theorem mem_children_of_mem_parts {t child : Term} {name : String} {part : Part} (hpart : (name, part) ∈ t.parts)
    (hchild : child ∈ part.children) : child ∈ t.children := by
  rw [children_eq]
  exact List.mem_flatMap.2 ⟨(name, part), hpart, hchild⟩

/-- Every part is decoded from the field that it stands in. -/
def HasParts (t : Term) (fields : List (String × Json)) : Prop :=
  ∀ field ∈ t.parts, ∃ v, Json.get? field.1 fields = some v ∧ field.2.DecodedFrom v

theorem hasParts_of_makesUp {fields : List (String × Json)} {l : Location} {t : Term} {kind : Kind}
    (h : MakesUp fields l t kind) : t.kind = kind ∧ t.location = l ∧ t.HasParts fields := by
  cases kind with
  | int | str | bool | var =>
    obtain ⟨_, hvalue, rfl⟩ := h
    exact ⟨rfl, rfl, List.forall_mem_singleton.2 ⟨_, hvalue, rfl⟩⟩
  | function =>
    obtain ⟨items, parameters, body, hparameters, hitems, hbody, rfl⟩ := h
    refine ⟨rfl, rfl, List.forall_mem_cons.2 ⟨⟨_, hparameters, items, rfl, hitems⟩, ?_⟩⟩
    exact List.forall_mem_singleton.2 hbody
  | call =>
    obtain ⟨items, callee, arguments, hcallee, harguments, hitems, rfl⟩ := h
    refine ⟨rfl, rfl, List.forall_mem_cons.2 ⟨hcallee, ?_⟩⟩
    exact List.forall_mem_singleton.2 ⟨_, harguments, items, rfl, hitems⟩
  | letIn =>
    obtain ⟨v, name, value, next, hv, hname, hvalue, hnext, rfl⟩ := h
    refine ⟨rfl, rfl, List.forall_mem_cons.2 ⟨⟨v, hv, hname⟩, ?_⟩⟩
    exact List.forall_mem_cons.2 ⟨hvalue, List.forall_mem_singleton.2 hnext⟩
  | cond =>
    obtain ⟨condition, whenTrue, whenFalse, hcondition, htrue, hfalse, rfl⟩ := h
    refine ⟨rfl, rfl, List.forall_mem_cons.2 ⟨hcondition, ?_⟩⟩
    exact List.forall_mem_cons.2 ⟨htrue, List.forall_mem_singleton.2 hfalse⟩
  | binary =>
    obtain ⟨operator, left, right, hoperator, hleft, hright, rfl⟩ := h
    refine ⟨rfl, rfl, List.forall_mem_cons.2 ⟨⟨_, hoperator, rfl⟩, ?_⟩⟩
    exact List.forall_mem_cons.2 ⟨hleft, List.forall_mem_singleton.2 hright⟩
  | tuple =>
    obtain ⟨a, b, ha, hb, rfl⟩ := h
    exact ⟨rfl, rfl, List.forall_mem_cons.2 ⟨ha, List.forall_mem_singleton.2 hb⟩⟩
  | _ =>
    obtain ⟨operand, hoperand, rfl⟩ := h
    exact ⟨rfl, rfl, List.forall_mem_singleton.2 hoperand⟩

theorem makesUp_of_hasParts {fields : List (String × Json)} {t : Term} (h : t.HasParts fields) :
    MakesUp fields t.location t t.kind := by
  cases t <;> simp_all [HasParts, parts, Part.DecodedFrom, MakesUp, HoldsTerm, kind, location]

theorem ofJson_object_eq_ok_iff {fields : List (String × Json)} {t : Term} :
    Term.ofJson (.object fields) = .ok t ↔ Json.get? "kind" fields = some (.string t.kind.name) ∧
      PlacedAt fields t.location ∧ t.HasParts fields := by
  rw [ofJson_eq_ok_iff]
  constructor
  · rintro ⟨fields', kind, l, hfields, hkind, hl, hparts⟩
    cases hfields
    obtain ⟨rfl, rfl, hfound⟩ := hasParts_of_makesUp hparts
    exact ⟨hkind, nodeLocation_eq_ok_iff.1 hl, hfound⟩
  · rintro ⟨hkind, hl, hparts⟩
    exact ⟨fields, t.kind, t.location, rfl, hkind, nodeLocation_eq_ok_iff.2 hl, makesUp_of_hasParts hparts⟩

end Term

/-! ### Decoding in key order -/

namespace Document

open Json

variable {v : Json} {fields : List (String × Json)} {l : Location}

theorem isLocation_object_iff : IsLocation (.object fields) l ↔ get? "start" fields = some (.ofNat l.start.toNat) ∧
    get? "end" fields = some (.ofNat l.stop.toNat) ∧ get? "filename" fields = some (.string l.filename) := by
  constructor
  · rintro ⟨start, stop, filename⟩
    exact ⟨start, stop, filename⟩
  · rintro ⟨start, stop, filename⟩
    exact .object start stop filename

theorem isLocation_inKeyOrder : IsLocation v.inKeyOrder l ↔ IsLocation v l := by
  cases v with
  | object fields =>
    rw [inKeyOrder, isLocation_object_iff, isLocation_object_iff]
    simp [ofNat]
  | array items =>
    rw [inKeyOrder_array]
    constructor
    · intro h
      generalize hordered : Json.array (items.map inKeyOrder) = w at h
      cases h with
      | object => cases hordered
      | array =>
        simp only [array.injEq, List.map_eq_cons_iff, List.map_eq_nil_iff, ofNat, inKeyOrder_eq_number,
          inKeyOrder_eq_string] at hordered
        obtain ⟨_, _, rfl, rfl, _, _, rfl, rfl, _, _, rfl, rfl, rfl⟩ := hordered
        exact .array l
    · rintro ⟨⟩
      exact .array l
  | _ => exact Iff.rfl

theorem placedAt_inKeyOrder : PlacedAt (fieldsInKeyOrder fields) l ↔ PlacedAt fields l := by
  have hnull : get? "location" (fieldsInKeyOrder fields) = some .null ↔ get? "location" fields = some .null := by simp
  constructor
  · intro h
    cases h with
    | absent location => exact .absent (get?_fieldsInKeyOrder_eq_none.1 location)
    | null location => exact .null (hnull.1 location)
    | given location isLocation ordered =>
      obtain ⟨w, hw, rfl⟩ := get?_fieldsInKeyOrder_eq_some.1 location
      exact .given hw (isLocation_inKeyOrder.1 isLocation) ordered
  · intro h
    cases h with
    | absent location => exact .absent (get?_fieldsInKeyOrder_eq_none.2 location)
    | null location => exact .null (hnull.2 location)
    | given location isLocation ordered =>
      exact .given (get?_fieldsInKeyOrder_eq_some.2 ⟨_, location, rfl⟩) (isLocation_inKeyOrder.2 isLocation) ordered

end Document

namespace Parameter

theorem ofJson_inKeyOrder {v : Json} {p : Parameter} :
    Parameter.ofJson v.inKeyOrder = .ok p ↔ Parameter.ofJson v = .ok p := by
  cases v with
  | object fields => simp [Json.inKeyOrder, Parameter.ofJson_eq_ok_iff, nodeLocation_eq_ok_iff, placedAt_inKeyOrder]
  | _ => simp [Json.inKeyOrder, Parameter.ofJson_eq_ok_iff]

end Parameter

namespace Document

open Json

theorem items_inKeyOrder {α : Type} {decode : Json → Except DecodeError α} {v : Json} {as : List α}
    (h : ∀ a ∈ as, ∀ u : Json, decode u.inKeyOrder = .ok a ↔ decode u = .ok a) :
    (∃ items, v.inKeyOrder = .array items ∧ List.Forall₂ (fun u a => decode u = .ok a) items as) ↔
      ∃ items, v = .array items ∧ List.Forall₂ (fun u a => decode u = .ok a) items as := by
  have hitems (items : List Json) : List.Forall₂ (fun u a => decode u = .ok a) (items.map inKeyOrder) as ↔
      List.Forall₂ (fun u a => decode u = .ok a) items as := by
    induction as generalizing items with
    | nil => simp
    | cons a rest ih =>
      obtain ⟨ha, hrest⟩ := List.forall_mem_cons.1 h
      cases items with
      | nil => simp
      | cons u items => simp [ha, ih hrest]
  simp only [inKeyOrder_eq_array]
  constructor
  · rintro ⟨_, ⟨items, rfl, rfl⟩, hall⟩
    exact ⟨items, rfl, (hitems items).1 hall⟩
  · rintro ⟨items, rfl, hall⟩
    exact ⟨_, ⟨items, rfl, rfl⟩, (hitems items).2 hall⟩

theorem Part.decodedFrom_inKeyOrder {part : Part} {v : Json}
    (h : ∀ t ∈ part.children, ∀ u : Json, Term.ofJson u.inKeyOrder = .ok t ↔ Term.ofJson u = .ok t) :
    part.DecodedFrom v.inKeyOrder ↔ part.DecodedFrom v := by
  cases part with
  | integer n => exact inKeyOrder_eq_number
  | text s => exact inKeyOrder_eq_string
  | truth b => exact inKeyOrder_eq_bool
  | operator o => exact inKeyOrder_eq_string
  | parameter p => exact Parameter.ofJson_inKeyOrder
  | parameters ps => exact items_inKeyOrder fun p _ u => Parameter.ofJson_inKeyOrder
  | term t => exact h t List.mem_cons_self v
  | terms ts => exact items_inKeyOrder h

end Document

namespace Term

/-- The decoder does not see the order of fields. -/
theorem ofJson_inKeyOrder (v : Json) (t : Term) : Term.ofJson v.inKeyOrder = .ok t ↔ Term.ofJson v = .ok t := by
  induction t using childInduction generalizing v with
  | step t ih =>
    cases v with
    | object fields =>
      have hparts : t.HasParts (Json.fieldsInKeyOrder fields) ↔ t.HasParts fields := by
        apply forall₂_congr
        intro field hfield
        simp only [Json.get?_fieldsInKeyOrder_eq_some]
        have hpart (v : Json) := Part.decodedFrom_inKeyOrder (v := v) fun child hchild =>
          ih child (mem_children_of_mem_parts hfield hchild)
        simp [hpart]
      rw [Json.inKeyOrder, ofJson_object_eq_ok_iff, ofJson_object_eq_ok_iff, placedAt_inKeyOrder, hparts]
      simp
    | _ => simp [Json.inKeyOrder, ofJson_eq_ok_iff]

end Term

end Treewalk

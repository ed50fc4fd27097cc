import Mathlib.Data.List.Forall2
import Treewalk.Document.Decode
import Treewalk.Document.Encode

/-! When decoding succeeds, and with what.

One statement for each decoding function says for which JSON it returns a given result; they lead to
`Term.ofJson_object_eq_ok`, which says how the fields of an object make up a term. Paths and messages of errors
play no part here. -/
namespace Treewalk

namespace Document

variable {α β : Type}

theorem bind_eq_ok {ε : Type} {x : Except ε α} {f : α → Except ε β} {b : β} :
    (x >>= f) = .ok b ↔ ∃ a, x = .ok a ∧ f a = .ok b := by
  cases x with
  | error e => simp [bind, Except.bind]
  | ok a => simp [bind, Except.bind]

theorem pure_eq_ok {ε : Type} {a b : α} : (pure a : Except ε α) = .ok b ↔ a = b := by
  simp [pure, Except.pure]

theorem within_eq_ok {step : Step} {x : Except DecodeError α} {a : α} : within step x = .ok a ↔ x = .ok a := by
  cases x with
  | ok b => exact Iff.rfl
  | error e =>
    constructor
    · intro h
      cases h
    · intro h
      cases h

theorem refuse_ne_ok {location : Option Location} {problem : Problem} {a : α} :
    (refuse location problem : Except DecodeError α) ≠ .ok a := nofun

theorem withField_eq_ok_iff {location : Option Location} {name : String} {fields : List (String × Json)}
    {decode : (v : Json) → sizeOf v < sizeOf fields → Except DecodeError α} {a : α} :
    withField location name fields decode = .ok a ↔
      ∃ v, ∃ h : Json.get? name fields = some v, decode v (Json.sizeOf_lt_of_get? h) = .ok a := by
  unfold withField
  split
  · rename_i v hv
    rw [within_eq_ok]
    constructor
    · intro h
      exact ⟨v, hv, h⟩
    · rintro ⟨w, hw, h⟩
      obtain rfl := Option.some.inj (hv.symm.trans hw)
      exact h
  · rename_i hv
    simp [refuse_ne_ok, hv]

theorem withField_eq_ok {location : Option Location} {name : String} {fields : List (String × Json)}
    {decode : Json → Except DecodeError α} {a : α} :
    withField location name fields (fun v _ => decode v) = .ok a ↔
      ∃ v, Json.get? name fields = some v ∧ decode v = .ok a := by
  simp only [withField_eq_ok_iff, exists_prop]

theorem decodeItems_eq_ok {decode : Json → Except DecodeError α} {position : Nat} {items : List Json}
    {as : List α} :
    decodeItems decode position items = .ok as ↔ List.Forall₂ (fun v a => decode v = .ok a) items as := by
  induction items generalizing position as with
  | nil => simp [decodeItems, eq_comm]
  | cons item rest ih =>
    simp only [decodeItems, bind_eq_ok, within_eq_ok, pure_eq_ok, ih, List.forall₂_cons_left_iff]
    constructor
    · rintro ⟨a, ha, others, hothers, rfl⟩
      exact ⟨a, others, ha, hothers, rfl⟩
    · rintro ⟨a, others, ha, hothers, rfl⟩
      exact ⟨a, ha, others, hothers, rfl⟩

theorem decodeString_eq_ok {location : Location} {v : Json} {s : String} :
    decodeString location v = .ok s ↔ v = .string s := by
  cases v <;> simp [decodeString, refuse_ne_ok]

theorem decodeBool_eq_ok {location : Location} {v : Json} {b : Bool} :
    decodeBool location v = .ok b ↔ v = .bool b := by
  cases v <;> simp [decodeBool, refuse_ne_ok]

theorem decodeInt_eq_ok {location : Location} {v : Json} {n : Int64} :
    decodeInt location v = .ok n ↔ v = .ofInt n.toInt := by
  have hlow := n.le_toInt
  have hhigh := n.toInt_lt
  constructor
  · intro h
    cases v with
    | number x =>
      cases x with
      | integer k =>
        simp only [decodeInt, Bool.and_eq_true, decide_eq_true_eq] at h
        split at h
        · rename_i hk
          cases h
          rw [Int64.toInt_ofInt_of_le hk.1 (by omega)]
          rfl
        · exact absurd h refuse_ne_ok
      | float x => exact absurd h refuse_ne_ok
    | _ => exact absurd h refuse_ne_ok
  · rintro rfl
    have hk : -9223372036854775808 ≤ n.toInt ∧ n.toInt ≤ 9223372036854775807 := by omega
    simp [decodeInt, Json.ofInt, hk]

theorem decodeOperator_eq_ok {location : Location} {v : Json} {o : Operator} :
    decodeOperator location v = .ok o ↔ v = .string o.name := by
  unfold decodeOperator
  simp only [bind_eq_ok, decodeString_eq_ok]
  constructor
  · rintro ⟨name, rfl, h⟩
    split at h
    · rename_i o' ho
      cases h
      rw [Operator.name_of_ofName? ho]
    · exact absurd h refuse_ne_ok
  · rintro rfl
    exact ⟨o.name, rfl, by simp [Operator.ofName?_name, pure_eq_ok]⟩

theorem decodeKind_eq_ok {fields : List (String × Json)} {name : String} :
    decodeKind fields = .ok name ↔ Json.get? "kind" fields = some (.string name) := by
  unfold decodeKind
  split <;> simp_all [refuse_ne_ok]

theorem decodeOffset_ofNat (n : UInt32) : decodeOffset (.ofNat n.toNat) = .ok n := by
  have hn := n.toNat_lt
  have hle : (n.toNat : Int) ≤ 4294967295 := by omega
  simp [decodeOffset, Json.ofNat, hle]

theorem decodeRange_toJson (l : Location) : decodeRange l.toJson = .ok l := by
  simp only [decodeRange, Location.toJson, decodePart, demandPart, Json.get?]
  simp [decodeOffset_ofNat, decodeFilename, Except.map, bind, Except.bind, pure, Except.pure]

theorem decodeLocation_eq_ok {v : Json} {l : Location} :
    decodeLocation v = .ok l ↔ decodeRange v = .ok l ∧ l.toSpan.Ordered := by
  unfold decodeLocation
  simp only [bind_eq_ok]
  constructor
  · rintro ⟨l', hrange, h⟩
    split at h
    · rename_i hordered
      cases h
      exact ⟨hrange, hordered⟩
    · cases h
  · rintro ⟨hrange, hordered⟩
    exact ⟨l, hrange, by simp [hordered, pure_eq_ok]⟩

theorem nodeLocation_eq_ok {fields : List (String × Json)} {l : Location} :
    nodeLocation fields = .ok l ↔
      (∃ v, Json.get? "location" fields = some v ∧ decodeLocation v = .ok l) ∨
      (Json.get? "location" fields = none ∨ Json.get? "location" fields = some .null) ∧ l = .unknown := by
  unfold nodeLocation
  split
  · rename_i hnone
    simp [hnone, eq_comm]
  · rename_i hnull
    have hno : decodeLocation .null ≠ .ok l := by
      rw [Ne, decodeLocation_eq_ok]
      rintro ⟨hrange, _⟩
      cases hrange
    simp [hnull, hno, @eq_comm _ l]
  · rename_i v hnull hv
    have hne : v ≠ .null := hnull
    cases hd : decodeLocation v with
    | ok l' => simp [hv, hne, hd]
    | error fault => simp [hv, hne, hd, within_eq_ok, refuse_ne_ok]

/-- The location of a decoded node does not run backwards. -/
theorem ordered_of_nodeLocation {fields : List (String × Json)} {l : Location}
    (h : nodeLocation fields = .ok l) : l.toSpan.Ordered := by
  rcases nodeLocation_eq_ok.1 h with ⟨v, _, hv⟩ | ⟨_, rfl⟩
  · exact (decodeLocation_eq_ok.1 hv).2
  · decide

theorem nodeLocation_toJson {fields : List (String × Json)} {l l' : Location}
    (h : Json.get? "location" fields = some l.toJson) :
    nodeLocation fields = .ok l' ↔ l' = l ∧ l.toSpan.Ordered := by
  have hnull : l.toJson ≠ .null := nofun
  rw [nodeLocation_eq_ok, h]
  simp only [Option.some.injEq, exists_eq_left', decodeLocation_eq_ok, decodeRange_toJson, Except.ok.injEq,
    reduceCtorEq, hnull, or_self, false_and, or_false]
  constructor
  · rintro ⟨rfl, hordered⟩
    exact ⟨rfl, hordered⟩
  · rintro ⟨rfl, hordered⟩
    exact ⟨rfl, hordered⟩

theorem decodeParameters_eq_ok {location : Location} {v : Json} {ps : List Parameter} :
    decodeParameters location v = .ok ps ↔
      ∃ items, v = .array items ∧ List.Forall₂ (fun v p => Parameter.ofJson v = .ok p) items ps := by
  cases v <;> simp [decodeParameters, decodeItems_eq_ok, refuse_ne_ok]

def HoldsTerm (fields : List (String × Json)) (name : String) (t : Term) : Prop :=
  ∃ v, Json.get? name fields = some v ∧ Term.ofJson v = .ok t

/-- The fields of a node of a kind make up a term. -/
def MakesUp (fields : List (String × Json)) (l : Location) (t : Term) : Term.Kind → Prop
  | .int => ∃ n : Int64, Json.get? "value" fields = some (.ofInt n.toInt) ∧ .int n l = t
  | .str => ∃ s, Json.get? "value" fields = some (.string s) ∧ .str s l = t
  | .bool => ∃ b, Json.get? "value" fields = some (.bool b) ∧ .bool b l = t
  | .var => ∃ name, Json.get? "text" fields = some (.string name) ∧ .var name l = t
  | .function =>
      ∃ items parameters body, Json.get? "parameters" fields = some (.array items) ∧
        List.Forall₂ (fun v p => Parameter.ofJson v = .ok p) items parameters ∧ HoldsTerm fields "value" body ∧
        .function parameters body l = t
  | .call =>
      ∃ items callee arguments, HoldsTerm fields "callee" callee ∧
        Json.get? "arguments" fields = some (.array items) ∧
        List.Forall₂ (fun v t => Term.ofJson v = .ok t) items arguments ∧
        .call callee arguments l = t
  | .letIn =>
      ∃ v name value next, Json.get? "name" fields = some v ∧ Parameter.ofJson v = .ok name ∧
        HoldsTerm fields "value" value ∧ HoldsTerm fields "next" next ∧ .letIn name value next l = t
  | .cond =>
      ∃ condition whenTrue whenFalse, HoldsTerm fields "condition" condition ∧
        HoldsTerm fields "then" whenTrue ∧ HoldsTerm fields "otherwise" whenFalse ∧
        .cond condition whenTrue whenFalse l = t
  | .binary =>
      ∃ operator left right, Json.get? "op" fields = some (.string operator.name) ∧
        HoldsTerm fields "lhs" left ∧ HoldsTerm fields "rhs" right ∧ .binary operator left right l = t
  | .tuple =>
      ∃ first second, HoldsTerm fields "first" first ∧ HoldsTerm fields "second" second ∧
        .tuple first second l = t
  | .first => ∃ operand, HoldsTerm fields "value" operand ∧ .first operand l = t
  | .second => ∃ operand, HoldsTerm fields "value" operand ∧ .second operand l = t
  | .print => ∃ operand, HoldsTerm fields "value" operand ∧ .print operand l = t

end Document

open Document

theorem Parameter.ofJson_eq_ok_iff {v : Json} {p : Parameter} :
    Parameter.ofJson v = .ok p ↔ ∃ fields, v = .object fields ∧ nodeLocation fields = .ok p.location ∧
      Json.get? "text" fields = some (.string p.name) := by
  cases v with
  | object fields =>
    simp only [Parameter.ofJson, bind_eq_ok, withField_eq_ok, decodeString_eq_ok, pure_eq_ok]
    constructor
    · rintro ⟨l, hl, name, ⟨v, hv, rfl⟩, rfl⟩
      exact ⟨fields, rfl, hl, hv⟩
    · rintro ⟨fields', hfields, hl, hv⟩
      cases hfields
      exact ⟨p.location, hl, p.name, ⟨_, hv, rfl⟩, rfl⟩
  | _ => simp [Parameter.ofJson, refuse_ne_ok]

namespace Term

theorem listOfJson_eq_decodeItems (position : Nat) (items : List Json) :
    Term.listOfJson position items = decodeItems Term.ofJson position items := by
  induction items generalizing position with
  | nil => rw [listOfJson, decodeItems]
  | cons item rest ih => simp only [listOfJson, decodeItems, ih]

theorem ofJson_eq_ok_of_kind {fields : List (String × Json)} {kind : Kind} {l : Location} {t : Term}
    (hkind : Json.get? "kind" fields = some (.string kind.name)) (hl : nodeLocation fields = .ok l) :
    Term.ofJson (.object fields) = .ok t ↔ MakesUp fields l t kind := by
  rw [Term.ofJson, decodeKind_eq_ok.2 hkind, hl]
  simp only [bind_eq_ok, Except.ok.injEq, exists_eq_left', Kind.ofName?_name]
  cases kind with
  | int => simp only [bind_eq_ok, withField_eq_ok, decodeInt_eq_ok, pure_eq_ok, MakesUp, exists_eq_right]
  | str => simp only [bind_eq_ok, withField_eq_ok, decodeString_eq_ok, pure_eq_ok, MakesUp, exists_eq_right]
  | bool => simp only [bind_eq_ok, withField_eq_ok, decodeBool_eq_ok, pure_eq_ok, MakesUp, exists_eq_right]
  | var => simp only [bind_eq_ok, withField_eq_ok, decodeString_eq_ok, pure_eq_ok, MakesUp, exists_eq_right]
  | function =>
    simp only [bind_eq_ok, withField_eq_ok, decodeParameters_eq_ok, pure_eq_ok]
    constructor
    · rintro ⟨parameters, ⟨v, hv, items, rfl, hitems⟩, body, hbody, rfl⟩
      exact ⟨items, parameters, body, hv, hitems, hbody, rfl⟩
    · rintro ⟨items, parameters, body, hv, hitems, hbody, rfl⟩
      exact ⟨parameters, ⟨_, hv, items, rfl, hitems⟩, body, hbody, rfl⟩
  | call =>
    simp only [bind_eq_ok, withField_eq_ok_iff, exists_prop, pure_eq_ok]
    constructor
    · rintro ⟨callee, hcallee, arguments, ⟨v, hv, harguments⟩, rfl⟩
      cases v with
      | array items =>
        simp only [listOfJson_eq_decodeItems, decodeItems_eq_ok] at harguments
        exact ⟨items, callee, arguments, hcallee, hv, harguments, rfl⟩
      | _ => exact absurd harguments refuse_ne_ok
    · rintro ⟨items, callee, arguments, hcallee, hv, harguments, rfl⟩
      rw [← decodeItems_eq_ok, ← listOfJson_eq_decodeItems 0] at harguments
      exact ⟨callee, hcallee, arguments, ⟨_, hv, harguments⟩, rfl⟩
  | letIn =>
    simp only [bind_eq_ok, withField_eq_ok, pure_eq_ok]
    constructor
    · rintro ⟨name, ⟨v, hv, hname⟩, value, hvalue, next, hnext, rfl⟩
      exact ⟨v, name, value, next, hv, hname, hvalue, hnext, rfl⟩
    · rintro ⟨v, name, value, next, hv, hname, hvalue, hnext, rfl⟩
      exact ⟨name, ⟨v, hv, hname⟩, value, hvalue, next, hnext, rfl⟩
  | cond =>
    simp only [bind_eq_ok, withField_eq_ok, pure_eq_ok]
    constructor
    · rintro ⟨condition, hcondition, whenTrue, hwhenTrue, whenFalse, hwhenFalse, rfl⟩
      exact ⟨condition, whenTrue, whenFalse, hcondition, hwhenTrue, hwhenFalse, rfl⟩
    · rintro ⟨condition, whenTrue, whenFalse, hcondition, hwhenTrue, hwhenFalse, rfl⟩
      exact ⟨condition, hcondition, whenTrue, hwhenTrue, whenFalse, hwhenFalse, rfl⟩
  | binary =>
    simp only [bind_eq_ok, withField_eq_ok, decodeOperator_eq_ok, pure_eq_ok, exists_eq_right]
    constructor
    · rintro ⟨operator, hoperator, left, hleft, right, hright, rfl⟩
      exact ⟨operator, left, right, hoperator, hleft, hright, rfl⟩
    · rintro ⟨operator, left, right, hoperator, hleft, hright, rfl⟩
      exact ⟨operator, hoperator, left, hleft, right, hright, rfl⟩
  | tuple =>
    simp only [bind_eq_ok, withField_eq_ok, pure_eq_ok]
    constructor
    · rintro ⟨first, hfirst, second, hsecond, rfl⟩
      exact ⟨first, second, hfirst, hsecond, rfl⟩
    · rintro ⟨first, second, hfirst, hsecond, rfl⟩
      exact ⟨first, hfirst, second, hsecond, rfl⟩
  | _ => simp only [bind_eq_ok, withField_eq_ok, pure_eq_ok, MakesUp, HoldsTerm]

/-- A value decodes to a term exactly when it is an object whose fields make the term up. -/
theorem ofJson_eq_ok_iff {v : Json} {t : Term} :
    Term.ofJson v = .ok t ↔
      ∃ fields kind l, v = .object fields ∧ Json.get? "kind" fields = some (.string (Kind.name kind)) ∧
        nodeLocation fields = .ok l ∧ MakesUp fields l t kind := by
  constructor
  · intro h
    cases v with
    | object fields =>
      have hobject := h
      rw [Term.ofJson] at h
      obtain ⟨name, hname, h⟩ := bind_eq_ok.1 h
      obtain ⟨l, hl, h⟩ := bind_eq_ok.1 h
      cases hk : Kind.ofName? name with
      | none =>
        rw [hk] at h
        exact absurd h refuse_ne_ok
      | some kind =>
        rw [decodeKind_eq_ok, ← Kind.name_of_ofName? hk] at hname
        exact ⟨fields, kind, l, rfl, hname, hl, (ofJson_eq_ok_of_kind hname hl).1 hobject⟩
    | _ =>
      rw [Term.ofJson] at h
      · exact absurd h refuse_ne_ok
      · intro fields hfields
        cases hfields
  · rintro ⟨fields, kind, l, rfl, hkind, hl, h⟩
    exact (ofJson_eq_ok_of_kind hkind hl).2 h

end Term

theorem Program.ofJson_eq_ok_iff {v : Json} {p : Program} :
    Program.ofJson v = .ok p ↔ ∃ fields, v = .object fields ∧ checkFileKind fields = .ok () ∧
      nodeLocation fields = .ok p.location ∧ decodeName p.location fields = .ok p.name ∧
      HoldsTerm fields "expression" p.expression := by
  cases v with
  | object fields =>
    simp only [Program.ofJson, bind_eq_ok, withField_eq_ok, pure_eq_ok]
    constructor
    · rintro ⟨_, hkind, l, hl, name, hname, expression, hexpression, rfl⟩
      exact ⟨fields, rfl, hkind, hl, hname, hexpression⟩
    · rintro ⟨fields', hfields, hkind, hl, hname, hexpression⟩
      cases hfields
      exact ⟨(), hkind, p.location, hl, p.name, hname, p.expression, hexpression, rfl⟩
  | _ => simp [Program.ofJson, refuse_ne_ok]

end Treewalk

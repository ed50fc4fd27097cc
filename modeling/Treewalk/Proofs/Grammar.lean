import Treewalk.Proofs.DocumentRoundTrip

/-! The format of documents, as a grammar that knows nothing of the decoder.

`IsTerm v t` says that the JSON value `v` is a document of the term `t`: rules name the fields that a node has to
have, and nothing is asked of any other field. `ofJson_iff_document` says that the decoder accepts exactly these
documents, with these terms. -/
namespace Treewalk

namespace Document

/-- A location is an object with three fields, or an array of the same in this order. Both offsets are integers of
32 bits. -/
inductive IsLocation : Json → Location → Prop
  | object {fields : List (String × Json)} {l : Location}
      (start : Json.get? "start" fields = some (.ofNat l.start.toNat))
      (stop : Json.get? "end" fields = some (.ofNat l.stop.toNat))
      (filename : Json.get? "filename" fields = some (.string l.filename)) : IsLocation (.object fields) l
  | array (l : Location) :
      IsLocation (.array [.ofNat l.start.toNat, .ofNat l.stop.toNat, .string l.filename]) l

/-- The location of a node: unknown if the field is left out or null, otherwise one that does not run backwards. -/
inductive PlacedAt (fields : List (String × Json)) : Location → Prop
  | absent (location : Json.get? "location" fields = none) : PlacedAt fields .unknown
  | null (location : Json.get? "location" fields = some .null) : PlacedAt fields .unknown
  | given {v : Json} {l : Location} (location : Json.get? "location" fields = some v) (isLocation : IsLocation v l)
      (ordered : l.toSpan.Ordered) : PlacedAt fields l

inductive IsParameter : Json → Parameter → Prop
  | mk {fields : List (String × Json)} {p : Parameter} (placed : PlacedAt fields p.location)
      (text : Json.get? "text" fields = some (.string p.name)) : IsParameter (.object fields) p

inductive IsTerm : Json → Term → Prop
  -- An integer of 64 bits; a number with a fraction or an exponent is no integer.
  | int {fields : List (String × Json)} {l : Location} {n : Int64}
      (kind : Json.get? "kind" fields = some (.string "Int")) (placed : PlacedAt fields l)
      (value : Json.get? "value" fields = some (.ofInt n.toInt)) : IsTerm (.object fields) (.int n l)
  | str {fields : List (String × Json)} {l : Location} {s : String}
      (kind : Json.get? "kind" fields = some (.string "Str")) (placed : PlacedAt fields l)
      (value : Json.get? "value" fields = some (.string s)) : IsTerm (.object fields) (.str s l)
  | bool {fields : List (String × Json)} {l : Location} {b : Bool}
      (kind : Json.get? "kind" fields = some (.string "Bool")) (placed : PlacedAt fields l)
      (value : Json.get? "value" fields = some (.bool b)) : IsTerm (.object fields) (.bool b l)
  | var {fields : List (String × Json)} {l : Location} {name : String}
      (kind : Json.get? "kind" fields = some (.string "Var")) (placed : PlacedAt fields l)
      (text : Json.get? "text" fields = some (.string name)) : IsTerm (.object fields) (.var name l)
  | function {fields : List (String × Json)} {l : Location} {items : List Json} {ps : List Parameter} {v : Json}
      {body : Term} (kind : Json.get? "kind" fields = some (.string "Function")) (placed : PlacedAt fields l)
      (parameters : Json.get? "parameters" fields = some (.array items)) (each : List.Forall₂ IsParameter items ps)
      (value : Json.get? "value" fields = some v) (isBody : IsTerm v body) :
      IsTerm (.object fields) (.function ps body l)
  | call {fields : List (String × Json)} {l : Location} {v : Json} {f : Term} {items : List Json} {ts : List Term}
      (kind : Json.get? "kind" fields = some (.string "Call")) (placed : PlacedAt fields l)
      (callee : Json.get? "callee" fields = some v) (isCallee : IsTerm v f)
      (arguments : Json.get? "arguments" fields = some (.array items)) (each : List.Forall₂ IsTerm items ts) :
      IsTerm (.object fields) (.call f ts l)
  | letIn {fields : List (String × Json)} {l : Location} {u v w : Json} {p : Parameter} {bound rest : Term}
      (kind : Json.get? "kind" fields = some (.string "Let")) (placed : PlacedAt fields l)
      (name : Json.get? "name" fields = some u) (isName : IsParameter u p)
      (value : Json.get? "value" fields = some v) (isValue : IsTerm v bound)
      (next : Json.get? "next" fields = some w) (isNext : IsTerm w rest) :
      IsTerm (.object fields) (.letIn p bound rest l)
  | cond {fields : List (String × Json)} {l : Location} {u v w : Json} {test yes no : Term}
      (kind : Json.get? "kind" fields = some (.string "If")) (placed : PlacedAt fields l)
      (condition : Json.get? "condition" fields = some u) (isCondition : IsTerm u test)
      (whenTrue : Json.get? "then" fields = some v) (isWhenTrue : IsTerm v yes)
      (whenFalse : Json.get? "otherwise" fields = some w) (isWhenFalse : IsTerm w no) :
      IsTerm (.object fields) (.cond test yes no l)
  -- The name of the operator is spelled exactly.
  | binary {fields : List (String × Json)} {l : Location} {operator : Operator} {v w : Json} {left right : Term}
      (kind : Json.get? "kind" fields = some (.string "Binary")) (placed : PlacedAt fields l)
      (op : Json.get? "op" fields = some (.string operator.name))
      (lhs : Json.get? "lhs" fields = some v) (isLeft : IsTerm v left)
      (rhs : Json.get? "rhs" fields = some w) (isRight : IsTerm w right) :
      IsTerm (.object fields) (.binary operator left right l)
  | tuple {fields : List (String × Json)} {l : Location} {v w : Json} {a b : Term}
      (kind : Json.get? "kind" fields = some (.string "Tuple")) (placed : PlacedAt fields l)
      (first : Json.get? "first" fields = some v) (isFirst : IsTerm v a)
      (second : Json.get? "second" fields = some w) (isSecond : IsTerm w b) :
      IsTerm (.object fields) (.tuple a b l)
  | first {fields : List (String × Json)} {l : Location} {v : Json} {operand : Term}
      (kind : Json.get? "kind" fields = some (.string "First")) (placed : PlacedAt fields l)
      (value : Json.get? "value" fields = some v) (isOperand : IsTerm v operand) :
      IsTerm (.object fields) (.first operand l)
  | second {fields : List (String × Json)} {l : Location} {v : Json} {operand : Term}
      (kind : Json.get? "kind" fields = some (.string "Second")) (placed : PlacedAt fields l)
      (value : Json.get? "value" fields = some v) (isOperand : IsTerm v operand) :
      IsTerm (.object fields) (.second operand l)
  | print {fields : List (String × Json)} {l : Location} {v : Json} {operand : Term}
      (kind : Json.get? "kind" fields = some (.string "Print")) (placed : PlacedAt fields l)
      (value : Json.get? "value" fields = some v) (isOperand : IsTerm v operand) :
      IsTerm (.object fields) (.print operand l)

/-- A file need not say that it is one. -/
inductive SaysFile (fields : List (String × Json)) : Prop
  | absent (kind : Json.get? "kind" fields = none)
  | null (kind : Json.get? "kind" fields = some .null)
  | given (kind : Json.get? "kind" fields = some (.string "File"))

inductive Named (fields : List (String × Json)) : String → Prop
  | absent (name : Json.get? "name" fields = none) : Named fields ""
  | null (name : Json.get? "name" fields = some .null) : Named fields ""
  | given {s : String} (name : Json.get? "name" fields = some (.string s)) : Named fields s

inductive IsProgram : Json → Program → Prop
  | mk {fields : List (String × Json)} {p : Program} {v : Json} (kind : SaysFile fields)
      (placed : PlacedAt fields p.location) (named : Named fields p.name)
      (expression : Json.get? "expression" fields = some v) (isExpression : IsTerm v p.expression) :
      IsProgram (.object fields) p

theorem decodeOffset_eq_ok {v : Json} {n : UInt32} : decodeOffset v = .ok n ↔ v = .ofNat n.toNat := by
  constructor
  · intro h
    cases v with
    | number x =>
      cases x with
      | integer k =>
        simp only [decodeOffset, Bool.and_eq_true, decide_eq_true_eq] at h
        split at h
        · rename_i hk
          cases h
          have hfits : k.toNat < 4294967296 := by omega
          have hself : ((UInt32.ofNat k.toNat).toNat : Int) = k := by
            rw [UInt32.toNat_ofNat_of_lt' hfits]
            omega
          rw [Json.ofNat, hself]
        · cases h
      | float x => cases h
    | _ => cases h
  · rintro rfl
    exact decodeOffset_ofNat n

theorem decodeFilename_eq_ok {v : Json} {s : String} : decodeFilename v = .ok s ↔ v = .string s := by
  cases v <;> simp [decodeFilename]

theorem demandPart_eq_ok {α : Type} {name : String} {x : Option α} {a : α} :
    demandPart name x = .ok a ↔ x = some a := by
  cases x <;> simp [demandPart]

theorem decodePart_eq_ok {α : Type} {decode : Json → Except LocationFault α} {name : String}
    {fields : List (String × Json)} {a : α} :
    decodePart decode name fields = .ok (some a) ↔ ∃ v, Json.get? name fields = some v ∧ decode v = .ok a := by
  unfold decodePart
  cases Json.get? name fields with
  | none => simp
  | some v => cases hv : decode v <;> simp [Except.map, hv]

theorem decodeRange_eq_ok {v : Json} {l : Location} : decodeRange v = .ok l ↔ IsLocation v l := by
  constructor
  · intro h
    cases v with
    | object fields =>
      simp only [decodeRange, bind_eq_ok, pure_eq_ok, demandPart_eq_ok] at h
      obtain ⟨_, hstop, _, hfilename, _, hstart, start, rfl, stop, rfl, filename, rfl, rfl⟩ := h
      obtain ⟨u, hu, hstart⟩ := decodePart_eq_ok.1 hstart
      obtain ⟨v, hv, hstop⟩ := decodePart_eq_ok.1 hstop
      obtain ⟨w, hw, hfilename⟩ := decodePart_eq_ok.1 hfilename
      rw [decodeOffset_eq_ok.1 hstart] at hu
      rw [decodeOffset_eq_ok.1 hstop] at hv
      rw [decodeFilename_eq_ok.1 hfilename] at hw
      exact .object hu hv hw
    | array items =>
      -- An array with fewer than three items runs out before the location is read.
      rcases items with _ | ⟨start, _ | ⟨stop, _ | ⟨filename, more⟩⟩⟩
      · cases h
      · simp only [decodeRange, bind_eq_ok] at h
        obtain ⟨_, _, h⟩ := h
        cases h
      · simp only [decodeRange, bind_eq_ok] at h
        obtain ⟨_, _, _, _, h⟩ := h
        cases h
      · simp only [decodeRange, bind_eq_ok, decodeOffset_eq_ok, decodeFilename_eq_ok] at h
        obtain ⟨start, rfl, stop, rfl, filename, rfl, h⟩ := h
        split at h
        · rename_i hmore
          cases h
          rw [List.isEmpty_iff.1 hmore]
          exact .array ⟨⟨start, stop⟩, filename⟩
        · cases h
    | _ => cases h
  · intro h
    cases h with
    | object start stop filename =>
      simp only [decodeRange, bind_eq_ok, pure_eq_ok, demandPart_eq_ok]
      exact ⟨_, decodePart_eq_ok.2 ⟨_, stop, decodeOffset_ofNat _⟩, _, decodePart_eq_ok.2 ⟨_, filename, rfl⟩,
        _, decodePart_eq_ok.2 ⟨_, start, decodeOffset_ofNat _⟩, _, rfl, _, rfl, _, rfl, rfl⟩
    | array =>
      simp only [decodeRange, bind_eq_ok, decodeOffset_eq_ok, decodeFilename_eq_ok]
      exact ⟨_, rfl, _, rfl, _, rfl, rfl⟩

theorem nodeLocation_eq_ok_iff {fields : List (String × Json)} {l : Location} :
    nodeLocation fields = .ok l ↔ PlacedAt fields l := by
  rw [nodeLocation_eq_ok]
  constructor
  · rintro (⟨v, hv, hl⟩ | ⟨habsent | hnull, rfl⟩)
    · obtain ⟨hrange, hordered⟩ := decodeLocation_eq_ok.1 hl
      exact .given hv (decodeRange_eq_ok.1 hrange) hordered
    · exact .absent habsent
    · exact .null hnull
  · intro h
    cases h with
    | absent habsent => exact .inr ⟨.inl habsent, rfl⟩
    | null hnull => exact .inr ⟨.inr hnull, rfl⟩
    | given hv hl hordered => exact .inl ⟨_, hv, decodeLocation_eq_ok.2 ⟨decodeRange_eq_ok.2 hl, hordered⟩⟩

theorem parameterOfJson_eq_ok_iff {v : Json} {p : Parameter} : Parameter.ofJson v = .ok p ↔ IsParameter v p := by
  rw [Parameter.ofJson_eq_ok_iff]
  constructor
  · rintro ⟨fields, rfl, hl, htext⟩
    exact .mk (nodeLocation_eq_ok_iff.1 hl) htext
  · rintro ⟨placed, text⟩
    exact ⟨_, rfl, nodeLocation_eq_ok_iff.2 placed, text⟩

theorem forall₂_isParameter {items : List Json} {ps : List Parameter} :
    List.Forall₂ (fun v p => Parameter.ofJson v = .ok p) items ps ↔ List.Forall₂ IsParameter items ps := by
  simp only [parameterOfJson_eq_ok_iff]

theorem forall₂_isTerm {items : List Json} {ts : List Term}
    (h : ∀ t ∈ ts, ∀ v, Term.ofJson v = .ok t ↔ IsTerm v t) :
    List.Forall₂ (fun v t => Term.ofJson v = .ok t) items ts ↔ List.Forall₂ IsTerm items ts := by
  induction ts generalizing items with
  | nil => simp
  | cons t rest ih =>
    obtain ⟨ht, hrest⟩ := List.forall_mem_cons.1 h
    simp only [List.forall₂_cons_right_iff, ht, ih hrest]

section Nodes

variable {fields : List (String × Json)} {l : Location} {t : Term}

/-- The parts that make a term up are those that the grammar names. -/
theorem isTerm_of_makesUp {kind : Term.Kind}
    (ih : ∀ child ∈ t.children, ∀ v, Term.ofJson v = .ok child ↔ IsTerm v child)
    (hkind : Json.get? "kind" fields = some (.string kind.name)) (placed : PlacedAt fields l)
    (h : MakesUp fields l t kind) : IsTerm (.object fields) t := by
  cases kind with
  | int =>
    obtain ⟨n, value, rfl⟩ := h
    exact .int hkind placed value
  | str =>
    obtain ⟨s, value, rfl⟩ := h
    exact .str hkind placed value
  | bool =>
    obtain ⟨b, value, rfl⟩ := h
    exact .bool hkind placed value
  | var =>
    obtain ⟨name, text, rfl⟩ := h
    exact .var hkind placed text
  | function =>
    obtain ⟨items, ps, body, parameters, each, ⟨v, value, hbody⟩, rfl⟩ := h
    have isBody := (ih body (by simp [Term.children]) v).1 hbody
    exact .function hkind placed parameters (forall₂_isParameter.1 each) value isBody
  | call =>
    obtain ⟨items, f, ts, ⟨v, callee, hcallee⟩, arguments, each, rfl⟩ := h
    obtain ⟨ihcallee, iharguments⟩ := List.forall_mem_cons.1 ih
    exact .call hkind placed callee ((ihcallee v).1 hcallee) arguments ((forall₂_isTerm iharguments).1 each)
  | letIn =>
    obtain ⟨u, p, bound, rest, name, hname, ⟨v, value, hvalue⟩, ⟨w, next, hnext⟩, rfl⟩ := h
    have isValue := (ih bound (by simp [Term.children]) v).1 hvalue
    have isNext := (ih rest (by simp [Term.children]) w).1 hnext
    exact .letIn hkind placed name (parameterOfJson_eq_ok_iff.1 hname) value isValue next isNext
  | cond =>
    obtain ⟨test, yes, no, ⟨u, condition, htest⟩, ⟨v, whenTrue, hyes⟩, ⟨w, whenFalse, hno⟩, rfl⟩ := h
    have isCondition := (ih test (by simp [Term.children]) u).1 htest
    have isWhenTrue := (ih yes (by simp [Term.children]) v).1 hyes
    have isWhenFalse := (ih no (by simp [Term.children]) w).1 hno
    exact .cond hkind placed condition isCondition whenTrue isWhenTrue whenFalse isWhenFalse
  | binary =>
    obtain ⟨operator, left, right, op, ⟨v, lhs, hleft⟩, ⟨w, rhs, hright⟩, rfl⟩ := h
    have isLeft := (ih left (by simp [Term.children]) v).1 hleft
    have isRight := (ih right (by simp [Term.children]) w).1 hright
    exact .binary hkind placed op lhs isLeft rhs isRight
  | tuple =>
    obtain ⟨a, b, ⟨v, first, ha⟩, ⟨w, second, hb⟩, rfl⟩ := h
    have isFirst := (ih a (by simp [Term.children]) v).1 ha
    have isSecond := (ih b (by simp [Term.children]) w).1 hb
    exact .tuple hkind placed first isFirst second isSecond
  | first =>
    obtain ⟨operand, ⟨v, value, hoperand⟩, rfl⟩ := h
    exact .first hkind placed value ((ih operand (by simp [Term.children]) v).1 hoperand)
  | second =>
    obtain ⟨operand, ⟨v, value, hoperand⟩, rfl⟩ := h
    exact .second hkind placed value ((ih operand (by simp [Term.children]) v).1 hoperand)
  | print =>
    obtain ⟨operand, ⟨v, value, hoperand⟩, rfl⟩ := h
    exact .print hkind placed value ((ih operand (by simp [Term.children]) v).1 hoperand)

theorem makesUp_of_isTerm (ih : ∀ child ∈ t.children, ∀ v, Term.ofJson v = .ok child ↔ IsTerm v child) {v : Json}
    (h : IsTerm v t) :
    ∃ fields, v = .object fields ∧ Json.get? "kind" fields = some (.string t.kind.name) ∧
      PlacedAt fields t.location ∧ MakesUp fields t.location t t.kind := by
  cases h with
  | int kind placed value => exact ⟨_, rfl, kind, placed, _, value, rfl⟩
  | str kind placed value => exact ⟨_, rfl, kind, placed, _, value, rfl⟩
  | bool kind placed value => exact ⟨_, rfl, kind, placed, _, value, rfl⟩
  | var kind placed text => exact ⟨_, rfl, kind, placed, _, text, rfl⟩
  | @function _ _ items ps v body kind placed parameters each value isBody =>
    have hbody := (ih body (by simp [Term.children]) v).2 isBody
    exact ⟨_, rfl, kind, placed, items, ps, body, parameters, forall₂_isParameter.2 each, ⟨v, value, hbody⟩, rfl⟩
  | @call _ _ v f items ts kind placed callee isCallee arguments each =>
    obtain ⟨ihcallee, iharguments⟩ := List.forall_mem_cons.1 ih
    exact ⟨_, rfl, kind, placed, items, f, ts, ⟨v, callee, (ihcallee v).2 isCallee⟩, arguments,
      (forall₂_isTerm iharguments).2 each, rfl⟩
  | @letIn _ _ u v w p bound rest kind placed name isName value isValue next isNext =>
    have hvalue := (ih bound (by simp [Term.children]) v).2 isValue
    have hnext := (ih rest (by simp [Term.children]) w).2 isNext
    exact ⟨_, rfl, kind, placed, u, p, bound, rest, name, parameterOfJson_eq_ok_iff.2 isName, ⟨v, value, hvalue⟩,
      ⟨w, next, hnext⟩, rfl⟩
  | @cond _ _ u v w test yes no kind placed condition isCondition whenTrue isWhenTrue whenFalse isWhenFalse =>
    have htest := (ih test (by simp [Term.children]) u).2 isCondition
    have hyes := (ih yes (by simp [Term.children]) v).2 isWhenTrue
    have hno := (ih no (by simp [Term.children]) w).2 isWhenFalse
    exact ⟨_, rfl, kind, placed, test, yes, no, ⟨u, condition, htest⟩, ⟨v, whenTrue, hyes⟩, ⟨w, whenFalse, hno⟩, rfl⟩
  | @binary _ _ operator v w left right kind placed op lhs isLeft rhs isRight =>
    have hleft := (ih left (by simp [Term.children]) v).2 isLeft
    have hright := (ih right (by simp [Term.children]) w).2 isRight
    exact ⟨_, rfl, kind, placed, operator, left, right, op, ⟨v, lhs, hleft⟩, ⟨w, rhs, hright⟩, rfl⟩
  | @tuple _ _ v w a b kind placed first isFirst second isSecond =>
    have ha := (ih a (by simp [Term.children]) v).2 isFirst
    have hb := (ih b (by simp [Term.children]) w).2 isSecond
    exact ⟨_, rfl, kind, placed, a, b, ⟨v, first, ha⟩, ⟨w, second, hb⟩, rfl⟩
  | @first _ _ v operand kind placed value isOperand =>
    have hoperand := (ih operand (by simp [Term.children]) v).2 isOperand
    exact ⟨_, rfl, kind, placed, operand, ⟨v, value, hoperand⟩, rfl⟩
  | @second _ _ v operand kind placed value isOperand =>
    have hoperand := (ih operand (by simp [Term.children]) v).2 isOperand
    exact ⟨_, rfl, kind, placed, operand, ⟨v, value, hoperand⟩, rfl⟩
  | @print _ _ v operand kind placed value isOperand =>
    have hoperand := (ih operand (by simp [Term.children]) v).2 isOperand
    exact ⟨_, rfl, kind, placed, operand, ⟨v, value, hoperand⟩, rfl⟩

end Nodes

theorem termOfJson_eq_ok_iff (v : Json) (t : Term) : Term.ofJson v = .ok t ↔ IsTerm v t := by
  induction t using Term.childInduction generalizing v with
  | step t ih =>
    have ih' : ∀ child ∈ t.children, ∀ v, Term.ofJson v = .ok child ↔ IsTerm v child :=
      fun child hchild v => ih child hchild v
    constructor
    · intro h
      obtain ⟨fields, kind, l, rfl, hkind, hl, hparts⟩ := Term.ofJson_eq_ok_iff.1 h
      exact isTerm_of_makesUp ih' hkind (nodeLocation_eq_ok_iff.1 hl) hparts
    · intro h
      obtain ⟨fields, rfl, hkind, placed, hparts⟩ := makesUp_of_isTerm ih' h
      exact Term.ofJson_eq_ok_iff.2 ⟨fields, t.kind, t.location, rfl, hkind, nodeLocation_eq_ok_iff.2 placed, hparts⟩

theorem checkFileKind_eq_ok_iff {fields : List (String × Json)} : checkFileKind fields = .ok () ↔ SaysFile fields := by
  unfold checkFileKind
  constructor
  · intro h
    split at h
    · exact .absent ‹_›
    · exact .null ‹_›
    · exact .given ‹_›
    · rw [within_eq_ok] at h
      exact absurd h refuse_ne_ok
  · rintro (h | h | h) <;> simp [h]

theorem decodeName_eq_ok_iff {location : Location} {fields : List (String × Json)} {s : String} :
    decodeName location fields = .ok s ↔ Named fields s := by
  unfold decodeName
  constructor
  · intro h
    split at h
    · cases h
      exact .absent ‹_›
    · cases h
      exact .null ‹_›
    · rename_i v _ hv
      rw [within_eq_ok, decodeString_eq_ok] at h
      rw [h] at hv
      exact .given hv
  · rintro (h | h | h)
    · simp [h]
    · simp [h]
    · simp [h, within_eq_ok, decodeString_eq_ok]

theorem programOfJson_eq_ok_iff (v : Json) (p : Program) : Program.ofJson v = .ok p ↔ IsProgram v p := by
  rw [Program.ofJson_eq_ok_iff]
  constructor
  · rintro ⟨fields, rfl, hkind, hl, hname, w, hw, hterm⟩
    exact .mk (checkFileKind_eq_ok_iff.1 hkind) (nodeLocation_eq_ok_iff.1 hl) (decodeName_eq_ok_iff.1 hname) hw
      ((termOfJson_eq_ok_iff w p.expression).1 hterm)
  · rintro ⟨kind, placed, named, expression, isExpression⟩
    exact ⟨_, rfl, checkFileKind_eq_ok_iff.2 kind, nodeLocation_eq_ok_iff.2 placed, decodeName_eq_ok_iff.2 named, _,
      expression, (termOfJson_eq_ok_iff _ p.expression).2 isExpression⟩

end Document

end Treewalk

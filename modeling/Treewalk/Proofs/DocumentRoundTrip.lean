import Treewalk.Proofs.Decoding

/-! Documents of programs decode to the same programs, exactly when no location runs backwards.

`Term.ofJson_toJson_iff` decodes the document of any term; `Term.ordered_of_ofJson` is the invariant of what the
decoder returns. -/
namespace Treewalk

open Document

namespace Term

def names : Term → List Parameter
  | function parameters _ _ => parameters
  | letIn name _ _ _ => [name]
  | _ => []

mutual

/-- Every location in a term: of its nodes, of parameters and of the names of bindings. -/
def locations : Term → List Location
  | int _ l => [l]
  | str _ l => [l]
  | bool _ l => [l]
  | var _ l => [l]
  | function parameters body l => l :: parameters.map Parameter.location ++ locations body
  | call callee arguments l => l :: locations callee ++ locationsAll arguments
  | letIn name value next l => l :: name.location :: locations value ++ locations next
  | cond condition whenTrue whenFalse l =>
      l :: locations condition ++ locations whenTrue ++ locations whenFalse
  | binary _ left right l => l :: locations left ++ locations right
  | tuple a b l => l :: locations a ++ locations b
  | first operand l => l :: locations operand
  | second operand l => l :: locations operand
  | print operand l => l :: locations operand

def locationsAll : List Term → List Location
  | [] => []
  | t :: rest => locations t ++ locationsAll rest

end

def Ordered (t : Term) : Prop := ∀ l ∈ t.locations, l.toSpan.Ordered

instance (t : Term) : Decidable t.Ordered := inferInstanceAs (Decidable (∀ l ∈ t.locations, l.toSpan.Ordered))

theorem mem_locationsAll {l : Location} {ts : List Term} : l ∈ locationsAll ts ↔ ∃ t ∈ ts, l ∈ t.locations := by
  induction ts with
  | nil => simp [locationsAll]
  | cons t rest ih => simp [locationsAll, ih]

theorem mem_locations {t : Term} {l : Location} :
    l ∈ t.locations ↔
      l = t.location ∨ (∃ p ∈ t.names, p.location = l) ∨ ∃ child ∈ t.children, l ∈ child.locations := by
  cases t <;> simp [locations, location, names, children, mem_locationsAll, @eq_comm _ l]

theorem ordered_iff {t : Term} :
    t.Ordered ↔ t.location.toSpan.Ordered ∧ (∀ p ∈ t.names, p.location.toSpan.Ordered) ∧
      ∀ child ∈ t.children, child.Ordered := by
  constructor
  · intro h
    refine ⟨h _ (mem_locations.2 (.inl rfl)), ?_, ?_⟩
    · intro p hp
      exact h _ (mem_locations.2 (.inr (.inl ⟨p, hp, rfl⟩)))
    · intro child hchild l hl
      exact h l (mem_locations.2 (.inr (.inr ⟨child, hchild, hl⟩)))
  · rintro ⟨hown, hnames, hchildren⟩ l hl
    rcases mem_locations.1 hl with rfl | ⟨p, hp, rfl⟩ | ⟨child, hchild, hl⟩
    · exact hown
    · exact hnames p hp
    · exact hchildren child hchild l hl

/-- What holds of a term as soon as it holds of its children holds of every term. -/
theorem childInduction {motive : Term → Prop} (step : ∀ t, (∀ child ∈ t.children, motive child) → motive t)
    (t : Term) : motive t := by
  induction hsize : t.size using Nat.strongRecOn generalizing t with
  | _ n ih =>
    refine step t fun child hchild => ih child.size ?_ child rfl
    have hle := size_le_sizeAll hchild
    have hsum := size_eq t
    omega

end Term

def Program.Ordered (p : Program) : Prop := p.location.toSpan.Ordered ∧ p.expression.Ordered

instance (p : Program) : Decidable p.Ordered :=
  inferInstanceAs (Decidable (p.location.toSpan.Ordered ∧ p.expression.Ordered))

/-! ### What the decoder returns -/

theorem Document.exists_of_forall₂ {α : Type} {decode : Json → Except DecodeError α} {items : List Json}
    {as : List α} (h : List.Forall₂ (fun v a => decode v = .ok a) items as) :
    ∀ a ∈ as, ∃ v, decode v = .ok a := by
  induction h with
  | nil => simp
  | cons hd _ ih => exact List.forall_mem_cons.2 ⟨⟨_, hd⟩, ih⟩

/-- The parts of a decoded term are decoded values themselves. -/
theorem Document.MakesUp.decoded {fields : List (String × Json)} {l : Location} {t : Term} {kind : Term.Kind}
    (h : MakesUp fields l t kind) :
    t.location = l ∧ (∀ p ∈ t.names, ∃ v, Parameter.ofJson v = .ok p) ∧
      ∀ child ∈ t.children, ∃ v, Term.ofJson v = .ok child := by
  cases kind with
  | int =>
    obtain ⟨n, -, rfl⟩ := h
    simp [Term.location, Term.names, Term.children]
  | str =>
    obtain ⟨s, -, rfl⟩ := h
    simp [Term.location, Term.names, Term.children]
  | bool =>
    obtain ⟨b, -, rfl⟩ := h
    simp [Term.location, Term.names, Term.children]
  | var =>
    obtain ⟨name, -, rfl⟩ := h
    simp [Term.location, Term.names, Term.children]
  | function =>
    obtain ⟨items, parameters, body, -, hitems, ⟨v, -, hv⟩, rfl⟩ := h
    refine ⟨rfl, exists_of_forall₂ hitems, ?_⟩
    simpa [Term.children] using ⟨v, hv⟩
  | call =>
    obtain ⟨items, callee, arguments, ⟨v, -, hv⟩, -, hitems, rfl⟩ := h
    exact ⟨rfl, by simp [Term.names], List.forall_mem_cons.2 ⟨⟨v, hv⟩, exists_of_forall₂ hitems⟩⟩
  | letIn =>
    obtain ⟨u, name, value, next, -, hu, ⟨v, -, hv⟩, ⟨w, -, hw⟩, rfl⟩ := h
    refine ⟨rfl, ?_, ?_⟩
    · simpa [Term.names] using ⟨u, hu⟩
    · simpa [Term.children] using ⟨⟨v, hv⟩, ⟨w, hw⟩⟩
  | cond =>
    obtain ⟨condition, whenTrue, whenFalse, ⟨u, -, hu⟩, ⟨v, -, hv⟩, ⟨w, -, hw⟩, rfl⟩ := h
    refine ⟨rfl, by simp [Term.names], ?_⟩
    simpa [Term.children] using ⟨⟨u, hu⟩, ⟨v, hv⟩, ⟨w, hw⟩⟩
  | binary =>
    obtain ⟨operator, left, right, -, ⟨v, -, hv⟩, ⟨w, -, hw⟩, rfl⟩ := h
    refine ⟨rfl, by simp [Term.names], ?_⟩
    simpa [Term.children] using ⟨⟨v, hv⟩, ⟨w, hw⟩⟩
  | tuple =>
    obtain ⟨first, second, ⟨v, -, hv⟩, ⟨w, -, hw⟩, rfl⟩ := h
    refine ⟨rfl, by simp [Term.names], ?_⟩
    simpa [Term.children] using ⟨⟨v, hv⟩, ⟨w, hw⟩⟩
  | _ =>
    obtain ⟨operand, ⟨v, -, hv⟩, rfl⟩ := h
    refine ⟨rfl, by simp [Term.names], ?_⟩
    simpa [Term.children] using ⟨v, hv⟩

theorem Parameter.ordered_of_ofJson {v : Json} {p : Parameter} (h : Parameter.ofJson v = .ok p) :
    p.location.toSpan.Ordered := by
  obtain ⟨fields, -, hl, -⟩ := Parameter.ofJson_eq_ok_iff.1 h
  exact ordered_of_nodeLocation hl

theorem Term.ordered_of_ofJson {v : Json} {t : Term} (h : Term.ofJson v = .ok t) : t.Ordered := by
  induction t using Term.childInduction generalizing v with
  | step t ih =>
    obtain ⟨fields, kind, l, rfl, -, hl, hparts⟩ := Term.ofJson_eq_ok_iff.1 h
    obtain ⟨hlocation, hnames, hchildren⟩ := hparts.decoded
    refine Term.ordered_iff.2 ⟨?_, ?_, ?_⟩
    · rw [hlocation]
      exact ordered_of_nodeLocation hl
    · intro p hp
      obtain ⟨w, hw⟩ := hnames p hp
      exact Parameter.ordered_of_ofJson hw
    · intro child hchild
      obtain ⟨w, hw⟩ := hchildren child hchild
      exact ih child hchild hw

theorem Program.ordered_of_ofJson {v : Json} {p : Program} (h : Program.ofJson v = .ok p) : p.Ordered := by
  obtain ⟨fields, -, -, hl, -, ⟨w, -, hw⟩⟩ := Program.ofJson_eq_ok_iff.1 h
  exact ⟨ordered_of_nodeLocation hl, Term.ordered_of_ofJson hw⟩

/-! ### Decoding what was encoded -/

theorem Document.forall₂_map_iff {α : Type} {P : α → Prop} {encode : α → Json}
    {decode : Json → Except DecodeError α} {s u : List α}
    (h : ∀ a ∈ s, ∀ {b}, decode (encode a) = .ok b ↔ P a ∧ a = b) :
    List.Forall₂ (fun v b => decode v = .ok b) (s.map encode) u ↔ (∀ a ∈ s, P a) ∧ s = u := by
  induction s generalizing u with
  | nil => simp [eq_comm]
  | cons a rest ih =>
    obtain ⟨ha, hrest⟩ := List.forall_mem_cons.1 h
    simp only [List.map_cons, List.forall₂_cons_left_iff, ha, ih hrest, List.forall_mem_cons]
    constructor
    · rintro ⟨b, others, ⟨hb, rfl⟩, ⟨hothers, rfl⟩, rfl⟩
      exact ⟨⟨hb, hothers⟩, rfl⟩
    · rintro ⟨⟨ha, hrest⟩, rfl⟩
      exact ⟨a, rest, ⟨ha, rfl⟩, ⟨hrest, rfl⟩, rfl⟩

theorem Parameter.ofJson_toJson_iff {p q : Parameter} :
    Parameter.ofJson p.toJson = .ok q ↔ p.location.toSpan.Ordered ∧ p = q := by
  obtain ⟨name, l⟩ := p
  obtain ⟨name', l'⟩ := q
  have hl : Json.get? "location" [("location", l.toJson), ("text", .string name)] = some l.toJson := rfl
  simp only [Parameter.toJson, Parameter.ofJson_eq_ok_iff]
  constructor
  · rintro ⟨fields, hfields, hlocation, hname⟩
    cases hfields
    cases hname
    obtain ⟨rfl, hordered⟩ := (nodeLocation_toJson hl).1 hlocation
    exact ⟨hordered, rfl⟩
  · rintro ⟨hordered, hp⟩
    cases hp
    exact ⟨_, rfl, (nodeLocation_toJson hl).2 ⟨rfl, hordered⟩, rfl⟩

namespace Term

theorem listToJson_eq_map (ts : List Term) : listToJson ts = ts.map toJson := by
  induction ts with
  | nil => rw [listToJson, List.map_nil]
  | cons t rest ih => rw [listToJson, List.map_cons, ih]

theorem ofJson_node_eq_ok {fields : List (String × Json)} {kind : Kind} {l : Location} {t : Term}
    (hkind : Json.get? "kind" fields = some (.string kind.name))
    (hlocation : Json.get? "location" fields = some l.toJson) :
    Term.ofJson (.object fields) = .ok t ↔ l.toSpan.Ordered ∧ MakesUp fields l t kind := by
  constructor
  · intro h
    obtain ⟨fields', kind', l', hfields, -, hl, -⟩ := ofJson_eq_ok_iff.1 h
    cases hfields
    obtain ⟨rfl, hordered⟩ := (nodeLocation_toJson hlocation).1 hl
    exact ⟨hordered, (ofJson_eq_ok_of_kind hkind hl).1 h⟩
  · rintro ⟨hordered, h⟩
    exact (ofJson_eq_ok_of_kind hkind ((nodeLocation_toJson hlocation).2 ⟨rfl, hordered⟩)).2 h

theorem ofJson_toJson_iff {t u : Term} : Term.ofJson t.toJson = .ok u ↔ t.Ordered ∧ t = u := by
  induction t using childInduction generalizing u with
  | step t ih =>
    rw [ordered_iff]
    cases t with
    | int n l =>
      rw [toJson, ofJson_node_eq_ok rfl rfl]
      simp [MakesUp, Json.get?, Json.ofInt, Int64.toInt_inj, location, names, children]
    | str s l =>
      rw [toJson, ofJson_node_eq_ok rfl rfl]
      simp [MakesUp, Json.get?, location, names, children]
    | bool b l =>
      rw [toJson, ofJson_node_eq_ok rfl rfl]
      simp [MakesUp, Json.get?, location, names, children]
    | var name l =>
      rw [toJson, ofJson_node_eq_ok rfl rfl]
      simp [MakesUp, Json.get?, location, names, children]
    | function parameters body l =>
      obtain ⟨hbody, -⟩ := List.forall_mem_cons.1 ih
      have hparameters {qs : List Parameter} :=
        forall₂_map_iff (P := fun p => p.location.toSpan.Ordered) (s := parameters) (u := qs)
          fun p _ => Parameter.ofJson_toJson_iff
      rw [toJson, ofJson_node_eq_ok rfl rfl]
      simp [MakesUp, HoldsTerm, Json.get?, hparameters, hbody, location, names, children, and_assoc]
    | call callee arguments l =>
      obtain ⟨hcallee, harguments⟩ := List.forall_mem_cons.1 ih
      rw [toJson, ofJson_node_eq_ok rfl rfl, listToJson_eq_map]
      simp [MakesUp, HoldsTerm, Json.get?, hcallee, forall₂_map_iff harguments, location, names, children,
        and_assoc]
    | letIn name value next l =>
      obtain ⟨hvalue, hrest⟩ := List.forall_mem_cons.1 ih
      obtain ⟨hnext, -⟩ := List.forall_mem_cons.1 hrest
      rw [toJson, ofJson_node_eq_ok rfl rfl]
      simp [MakesUp, HoldsTerm, Json.get?, Parameter.ofJson_toJson_iff, hvalue, hnext, location, names,
        children, and_assoc]
    | cond condition whenTrue whenFalse l =>
      obtain ⟨hcondition, hrest⟩ := List.forall_mem_cons.1 ih
      obtain ⟨htrue, hrest⟩ := List.forall_mem_cons.1 hrest
      obtain ⟨hfalse, -⟩ := List.forall_mem_cons.1 hrest
      rw [toJson, ofJson_node_eq_ok rfl rfl]
      simp [MakesUp, HoldsTerm, Json.get?, hcondition, htrue, hfalse, location, names, children, and_assoc]
    | binary operator left right l =>
      obtain ⟨hleft, hrest⟩ := List.forall_mem_cons.1 ih
      obtain ⟨hright, -⟩ := List.forall_mem_cons.1 hrest
      rw [toJson, ofJson_node_eq_ok rfl rfl]
      simp [MakesUp, HoldsTerm, Json.get?, Operator.name_inj, hleft, hright, location, names, children,
        and_assoc]
    | tuple a b l =>
      obtain ⟨ha, hrest⟩ := List.forall_mem_cons.1 ih
      obtain ⟨hb, -⟩ := List.forall_mem_cons.1 hrest
      rw [toJson, ofJson_node_eq_ok rfl rfl]
      simp [MakesUp, HoldsTerm, Json.get?, ha, hb, location, names, children, and_assoc]
    | _ operand l =>
      obtain ⟨hoperand, -⟩ := List.forall_mem_cons.1 ih
      rw [toJson, ofJson_node_eq_ok rfl rfl]
      simp [MakesUp, HoldsTerm, Json.get?, hoperand, location, names, children, and_assoc]

end Term

theorem Program.ofJson_toJson_iff {p q : Program} : Program.ofJson p.toJson = .ok q ↔ p.Ordered ∧ p = q := by
  obtain ⟨name, expression, l⟩ := p
  obtain ⟨name', expression', l'⟩ := q
  have hl : Json.get? "location" [("expression", expression.toJson), ("kind", .string "File"),
    ("location", l.toJson), ("name", .string name)] = some l.toJson := rfl
  simp only [Program.toJson, Program.ofJson_eq_ok_iff, Program.Ordered]
  constructor
  · rintro ⟨fields, hfields, -, hlocation, hname, ⟨v, hv, hexpression⟩⟩
    cases hfields
    cases hname
    cases hv
    obtain ⟨rfl, hordered⟩ := (nodeLocation_toJson hl).1 hlocation
    obtain ⟨hterm, rfl⟩ := Term.ofJson_toJson_iff.1 hexpression
    exact ⟨⟨hordered, hterm⟩, rfl⟩
  · rintro ⟨⟨hordered, hterm⟩, hp⟩
    cases hp
    exact ⟨_, rfl, rfl, (nodeLocation_toJson hl).2 ⟨rfl, hordered⟩, rfl, _, rfl,
      Term.ofJson_toJson_iff.2 ⟨hterm, rfl⟩⟩

namespace Document

/-- The document of a term or of a program decodes to it if no location in it runs backwards and is refused
otherwise; whatever the decoder accepts has such locations only, so that its own document decodes to it again. -/
theorem decode_encode_exactly_ordered :
    (∀ t : Term, (t.Ordered → Term.ofJson t.toJson = .ok t) ∧
      (¬ t.Ordered → ∃ e, Term.ofJson t.toJson = .error e)) ∧
    (∀ p : Program, (p.Ordered → Program.ofJson p.toJson = .ok p) ∧
      (¬ p.Ordered → ∃ e, Program.ofJson p.toJson = .error e)) ∧
    (∀ (v : Json) (t : Term), Term.ofJson v = .ok t → t.Ordered ∧ Term.ofJson t.toJson = .ok t) ∧
    (∀ (v : Json) (p : Program), Program.ofJson v = .ok p →
      p.Ordered ∧ Program.ofJson p.toJson = .ok p) := by
  refine ⟨fun t => ⟨fun h => Term.ofJson_toJson_iff.2 ⟨h, rfl⟩, fun h => ?_⟩,
    fun p => ⟨fun h => Program.ofJson_toJson_iff.2 ⟨h, rfl⟩, fun h => ?_⟩, fun v t h => ?_, fun v p h => ?_⟩
  · cases hd : Term.ofJson t.toJson with
    | error e => exact ⟨e, rfl⟩
    | ok u => exact absurd (Term.ofJson_toJson_iff.1 hd).1 h
  · cases hd : Program.ofJson p.toJson with
    | error e => exact ⟨e, rfl⟩
    | ok q => exact absurd (Program.ofJson_toJson_iff.1 hd).1 h
  · have hordered := Term.ordered_of_ofJson h
    exact ⟨hordered, Term.ofJson_toJson_iff.2 ⟨hordered, rfl⟩⟩
  · have hordered := Program.ordered_of_ofJson h
    exact ⟨hordered, Program.ofJson_toJson_iff.2 ⟨hordered, rfl⟩⟩

theorem decode_encode_of_one_parameter :
    (Term.function [⟨"x", ⟨⟨3, 4⟩, "a"⟩⟩] (.var "x" .unknown) .unknown).Ordered ∧
    Term.ofJson (Term.function [⟨"x", ⟨⟨3, 4⟩, "a"⟩⟩] (.var "x" .unknown) .unknown).toJson =
      .ok (.function [⟨"x", ⟨⟨3, 4⟩, "a"⟩⟩] (.var "x" .unknown) .unknown) ∧
    ¬ (Term.function [⟨"x", ⟨⟨4, 3⟩, "a"⟩⟩] (.var "x" .unknown) .unknown).Ordered ∧
    (∃ e, Term.ofJson (Term.function [⟨"x", ⟨⟨4, 3⟩, "a"⟩⟩] (.var "x" .unknown) .unknown).toJson = .error e) ∧
    Program.Ordered ⟨"p", .int 1 .unknown, .unknown⟩ ∧
    Program.ofJson (Program.toJson ⟨"p", .int 1 .unknown, .unknown⟩) = .ok ⟨"p", .int 1 .unknown, .unknown⟩ ∧
    ¬ Program.Ordered ⟨"p", .int 1 .unknown, ⟨⟨1, 0⟩, ""⟩⟩ ∧
    (∃ e, Program.ofJson (Program.toJson ⟨"p", .int 1 .unknown, ⟨⟨1, 0⟩, ""⟩⟩) = .error e) := by
  obtain ⟨hterms, hprograms, haccepted, -⟩ := decode_encode_exactly_ordered
  -- An accepted document that is not the encoding of its term.
  have hdocument : Term.ofJson (.object [("kind", .string Term.Kind.int.name), ("value", .ofInt 1)]) =
      .ok (.int 1 .unknown) := Term.ofJson_eq_ok_iff.2 ⟨_, .int, .unknown, rfl, rfl, rfl, 1, rfl, rfl⟩
  have hint : (Term.int 1 .unknown).Ordered := (haccepted _ _ hdocument).1
  exact ⟨by decide, (hterms _).1 (by decide), by decide, (hterms _).2 (by decide), ⟨by decide, hint⟩,
    (hprograms _).1 ⟨by decide, hint⟩, by decide, (hprograms _).2 (by decide)⟩

end Document

end Treewalk

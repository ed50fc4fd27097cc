import Treewalk.Proofs.Fields

/-! Errors of the decoder lead to the fault in the document.

Following the path of an error from the root of the document reaches a value of which the problem holds, and the
location of the error is that of the object at hand. The proof goes down the document: what an error says of a value
inside a field it still says when the field is put in front of its path. -/
namespace Treewalk

namespace Document

/-- The value that a step leads to: a field of an object or an item of an array. -/
def Step.into? : Step → Json → Option Json
  | .field name, .object fields => Json.get? name fields
  | .index position, .array items => items[position]?
  | _, _ => none

def follow : List Step → Json → Option Json
  | [], v => some v
  | step :: rest, v => (step.into? v).bind (follow rest)

/-- The text of a path, read as a way: every part behind a slash names a field of an object or counts the items of an
array. -/
inductive Reaches : String → Json → Json → Prop
  | here (v : Json) : Reaches "" v v
  | field {name rest : String} {fields : List (String × Json)} {u w : Json} (found : Json.get? name fields = some u)
      (onward : Reaches rest u w) : Reaches ("/" ++ name ++ rest) (.object fields) w
  | item {position : Nat} {rest : String} {items : List Json} {u w : Json} (found : items[position]? = some u)
      (onward : Reaches rest u w) : Reaches ("/" ++ position.repr ++ rest) (.array items) w

theorem reaches_of_follow {path : List Step} {v w : Json} (h : follow path v = some w) :
    Reaches (pathText path) v w := by
  induction path generalizing v with
  | nil =>
    cases h
    exact .here _
  | cons step rest ih =>
    rw [follow] at h
    obtain ⟨u, hu, hrest⟩ := Option.bind_eq_some_iff.1 h
    have hpath : pathText (step :: rest) = step.text ++ pathText rest := by simp [pathText]
    rw [hpath]
    unfold Step.into? at hu
    split at hu
    · exact .field hu (ih hrest)
    · exact .item hu (ih hrest)
    · cases hu

def Lacks (w : Json) (name : String) : Prop := ∃ fields, w = .object fields ∧ Json.get? name fields = none

def Expectation.IsMetBy : Expectation → Json → Prop
  | .file, w => ∃ fields, w = .object fields
  | .fileKind, w => w = .null ∨ w = .string "File"
  | .term, w => ∃ fields, w = .object fields
  | .parameter, w => ∃ fields, w = .object fields
  | .integer, w => ∃ n : Int64, w = .ofInt n.toInt
  | .string, w => ∃ s, w = .string s
  | .boolean, w => ∃ b, w = .bool b
  | .terms, w => ∃ items, w = .array items
  | .parameters, w => ∃ items, w = .array items

def Problem.HoldsOf (w : Json) : Problem → Prop
  | .unreadable _ => False
  | .missingField name => Lacks w name
  | .mistyped expected found => w.shape = found ∧ ¬ expected.IsMetBy w
  | .kindNotString found =>
      ∃ fields kind, w = .object fields ∧ Json.get? "kind" fields = some kind ∧ kind.shape = found ∧
        ∀ s, kind ≠ .string s
  | .unknownOperator name => w = .string name ∧ ∀ operator : Operator, operator.name ≠ name
  | .badLocation fault =>
      (¬ ∃ l, IsLocation w l ∧ l.toSpan.Ordered) ∧ ∀ name, fault = .missingField name → Lacks w name
  | .unknownKind name =>
      ∃ fields, w = .object fields ∧ Json.get? "kind" fields = some (.string name) ∧
        ∀ kind : Term.Kind, kind.name ≠ name

/-- The problem is one of a whole node. All others are problems of a value that a node holds. -/
def Problem.isOfNode : Problem → Bool
  | .missingField _ => true
  | .unknownKind _ => true
  | _ => false

/-- The path of an error leads from a document to a value that has the problem. A location, if there is one, is that of
the node: of the value itself, or of the object that holds it. -/
structure PointsAt (v : Json) (e : DecodeError) (w : Json) : Prop where
  reached : follow e.path v = some w
  problem : e.problem.HoldsOf w
  own : ∀ l, e.location = some l → e.problem.isOfNode = true → ∃ fields, w = .object fields ∧ PlacedAt fields l
  holder : ∀ l, e.location = some l → e.problem.isOfNode = false → ∃ path name fields,
    e.path = path ++ [.field name] ∧ follow path v = some (.object fields) ∧ PlacedAt fields l

theorem PointsAt.under {v u w : Json} {e : DecodeError} {step : Step} (h : PointsAt u e w)
    (hstep : step.into? v = some u) : PointsAt v (e.under step) w where
  reached := by
    rw [DecodeError.under, follow, hstep]
    exact h.reached
  problem := h.problem
  own := h.own
  holder := by
    intro l hl hvalue
    obtain ⟨path, name, fields, hpath, hfollow, placed⟩ := h.holder l hl hvalue
    have hlonger : (e.under step).path = (step :: path) ++ [.field name] := by
      rw [DecodeError.under, hpath, List.cons_append]
    refine ⟨step :: path, name, fields, hlonger, ?_, placed⟩
    rw [follow, hstep]
    exact hfollow

theorem pointsAt_self {w : Json} {problem : Problem} (h : problem.HoldsOf w) : PointsAt w ⟨[], none, problem⟩ w where
  reached := rfl
  problem := h
  own := nofun
  holder := nofun

theorem pointsAt_node {fields : List (String × Json)} {l : Location} {problem : Problem}
    (h : problem.HoldsOf (.object fields)) (hnode : problem.isOfNode = true) (placed : PlacedAt fields l) :
    PointsAt (.object fields) ⟨[], l, problem⟩ (.object fields) where
  reached := rfl
  problem := h
  own := by
    intro l' hl _
    cases hl
    exact ⟨fields, rfl, placed⟩
  holder := by
    intro l' _ hvalue
    rw [hnode] at hvalue
    cases hvalue

theorem pointsAt_field {fields : List (String × Json)} {name : String} {u : Json} {l : Location} {problem : Problem}
    (h : problem.HoldsOf u) (hvalue : problem.isOfNode = false) (placed : PlacedAt fields l)
    (hu : Json.get? name fields = some u) : PointsAt (.object fields) ⟨[.field name], l, problem⟩ u where
  reached := by
    rw [follow, Step.into?, hu]
    rfl
  problem := h
  own := by
    intro l' _ hnode
    rw [hvalue] at hnode
    cases hnode
  holder := by
    intro l' hl _
    cases hl
    exact ⟨[], name, fields, rfl, rfl, placed⟩

/-! ### Values that hold no node -/

theorem bind_eq_error {ε α β : Type} {x : Except ε α} {f : α → Except ε β} {e : ε} :
    (x >>= f) = .error e ↔ x = .error e ∨ ∃ a, x = .ok a ∧ f a = .error e := by
  cases x with
  | error e' => simp [bind, Except.bind]
  | ok a => simp [bind, Except.bind]

/-- The error is raised about a value as a whole, with the location of the node that holds it. -/
def IsAbout (l : Location) (u : Json) (e : DecodeError) : Prop :=
  ∃ problem : Problem, e = ⟨[], l, problem⟩ ∧ problem.HoldsOf u ∧ problem.isOfNode = false

theorem isAbout_mistyped {l : Location} {u : Json} {expected : Expectation} (h : ¬ expected.IsMetBy u) :
    IsAbout l u ⟨[], l, .mistyped expected u.shape⟩ :=
  ⟨_, rfl, ⟨rfl, h⟩, rfl⟩

theorem isAbout_decodeInt {l : Location} {u : Json} {e : DecodeError} (h : decodeInt l u = .error e) :
    IsAbout l u e := by
  have hno : ¬ Expectation.integer.IsMetBy u := by
    rintro ⟨n, rfl⟩
    rw [decodeInt_eq_ok.2 rfl] at h
    cases h
  have he : e = ⟨[], l, .mistyped .integer u.shape⟩ := by
    unfold decodeInt at h
    split at h
    · split at h <;> cases h
      rfl
    · cases h
      rfl
  rw [he]
  exact isAbout_mistyped hno

theorem isAbout_decodeString {l : Location} {u : Json} {e : DecodeError} (h : decodeString l u = .error e) :
    IsAbout l u e := by
  unfold decodeString at h
  split at h
  · cases h
  · rename_i hno
    cases h
    refine isAbout_mistyped ?_
    rintro ⟨s, rfl⟩
    exact hno s rfl

theorem isAbout_decodeBool {l : Location} {u : Json} {e : DecodeError} (h : decodeBool l u = .error e) :
    IsAbout l u e := by
  unfold decodeBool at h
  split at h
  · cases h
  · rename_i hno
    cases h
    refine isAbout_mistyped ?_
    rintro ⟨b, rfl⟩
    exact hno b rfl

theorem isAbout_decodeOperator {l : Location} {u : Json} {e : DecodeError} (h : decodeOperator l u = .error e) :
    IsAbout l u e := by
  unfold decodeOperator at h
  rcases bind_eq_error.1 h with h | ⟨name, hname, h⟩
  · exact isAbout_decodeString h
  · rw [decodeString_eq_ok] at hname
    split at h
    · cases h
    · rename_i hunknown
      cases h
      refine ⟨_, rfl, ⟨hname, ?_⟩, rfl⟩
      rintro operator rfl
      rw [Operator.ofName?_name] at hunknown
      cases hunknown

/-! ### Locations -/

theorem decodePart_eq_none {α : Type} {decode : Json → Except LocationFault α} {name : String}
    {fields : List (String × Json)} (h : decodePart decode name fields = .ok none) : Json.get? name fields = none := by
  unfold decodePart at h
  split at h
  · rename_i v _
    cases hv : decode v <;> simp [Except.map, hv] at h
  · assumption

theorem decodePart_eq_error {α : Type} {decode : Json → Except LocationFault α} {name : String}
    {fields : List (String × Json)} {fault : LocationFault} (h : decodePart decode name fields = .error fault) :
    ∃ v, decode v = .error fault := by
  unfold decodePart at h
  split at h
  · rename_i v _
    refine ⟨v, ?_⟩
    cases hv : decode v <;> simp_all [Except.map]
  · cases h

theorem decodeOffset_ne_missing {v : Json} {name : String} : decodeOffset v ≠ .error (.missingField name) := by
  unfold decodeOffset
  split
  · split <;> nofun
  · nofun

theorem decodeFilename_ne_missing {v : Json} {name : String} : decodeFilename v ≠ .error (.missingField name) := by
  unfold decodeFilename
  split <;> nofun

theorem demandPart_eq_missing {α : Type} {name part : String} {x : Option α}
    (h : demandPart part x = .error (.missingField name)) : x = none ∧ part = name := by
  cases x with
  | none =>
    cases h
    exact ⟨rfl, rfl⟩
  | some a => cases h

/-- Only a location given as an object misses a field, and then it has none of this name. -/
theorem lacks_of_decodeRange {v : Json} {name : String} (h : decodeRange v = .error (.missingField name)) :
    Lacks v name := by
  cases v with
  | object fields =>
    have hoffset {part : String} : decodePart decodeOffset part fields ≠ .error (.missingField name) := by
      intro hpart
      obtain ⟨u, hu⟩ := decodePart_eq_error hpart
      exact decodeOffset_ne_missing hu
    have hfilename : decodePart decodeFilename "filename" fields ≠ .error (.missingField name) := by
      intro hpart
      obtain ⟨u, hu⟩ := decodePart_eq_error hpart
      exact decodeFilename_ne_missing hu
    simp only [decodeRange, bind_eq_error, hoffset, hfilename, false_or] at h
    obtain ⟨stop, hstop, filename, hfile, start, hstart, h⟩ := h
    rcases h with h | ⟨_, -, h | ⟨_, -, h | ⟨_, -, h⟩⟩⟩
    · obtain ⟨rfl, rfl⟩ := demandPart_eq_missing h
      exact ⟨fields, rfl, decodePart_eq_none hstart⟩
    · obtain ⟨rfl, rfl⟩ := demandPart_eq_missing h
      exact ⟨fields, rfl, decodePart_eq_none hstop⟩
    · obtain ⟨rfl, rfl⟩ := demandPart_eq_missing h
      exact ⟨fields, rfl, decodePart_eq_none hfile⟩
    · cases h
  | array items =>
    rcases items with _ | ⟨start, _ | ⟨stop, _ | ⟨filename, more⟩⟩⟩
    · cases h
    · simp only [decodeRange, bind_eq_error, decodeOffset_ne_missing, false_or] at h
      obtain ⟨_, _, h⟩ := h
      cases h
    · simp only [decodeRange, bind_eq_error, decodeOffset_ne_missing, false_or] at h
      obtain ⟨_, _, _, _, h⟩ := h
      cases h
    · simp only [decodeRange, bind_eq_error, decodeOffset_ne_missing, decodeFilename_ne_missing, false_or] at h
      obtain ⟨_, _, _, _, _, _, h⟩ := h
      split at h <;> cases h
  | _ => cases h

theorem holdsOf_badLocation {v : Json} {fault : LocationFault} (h : decodeLocation v = .error fault) :
    (Problem.badLocation fault).HoldsOf v := by
  refine ⟨?_, ?_⟩
  · rintro ⟨l, hl, hordered⟩
    rw [decodeLocation_eq_ok.2 ⟨decodeRange_eq_ok.2 hl, hordered⟩] at h
    cases h
  · rintro name rfl
    rcases bind_eq_error.1 h with h | ⟨l, -, h⟩
    · exact lacks_of_decodeRange h
    · split at h <;> cases h

theorem pointsAt_nodeLocation {fields : List (String × Json)} {e : DecodeError} (h : nodeLocation fields = .error e) :
    ∃ w, PointsAt (.object fields) e w := by
  unfold nodeLocation at h
  split at h
  · cases h
  · cases h
  · rename_i v _ hv
    split at h
    · cases h
    · rename_i fault hfault
      cases h
      exact ⟨v, (pointsAt_self (holdsOf_badLocation hfault)).under hv⟩

/-! ### Nodes -/

/-- An error of a value in a field becomes one of the node: it is about the value, or about a place inside it. -/
theorem pointsAt_fieldFault {fields : List (String × Json)} {field : String × Role} {l : Location} {e : DecodeError}
    (placed : PlacedAt fields l)
    (hvalue : ∀ v e', Json.get? field.1 fields = some v → field.2.fault? l v = some e' →
      IsAbout l v e' ∨ ∃ w, PointsAt v e' w)
    (h : fieldFault? l fields field = some e) : ∃ w, PointsAt (.object fields) e w := by
  unfold fieldFault? at h
  split at h
  · rename_i hmissing
    cases h
    exact ⟨_, pointsAt_node ⟨fields, rfl, hmissing⟩ rfl placed⟩
  · rename_i v hv
    obtain ⟨e', he', rfl⟩ := Option.map_eq_some_iff.1 h
    rcases hvalue v e' hv he' with ⟨problem, rfl, hproblem, hkind⟩ | ⟨w, hw⟩
    · exact ⟨v, pointsAt_field hproblem hkind placed hv⟩
    · exact ⟨w, hw.under hv⟩

theorem pointsAt_items {α : Type} {decode : Json → Except DecodeError α} {items : List Json} {e : DecodeError}
    (hdecode : ∀ v ∈ items, ∀ e', decode v = .error e' → ∃ w, PointsAt v e' w) (h : itemsFault? decode items = some e) :
    ∃ w, PointsAt (.array items) e w := by
  obtain ⟨⟨v, i⟩, hmem, hitem⟩ := List.exists_of_findSome?_eq_some h
  obtain ⟨e', he', rfl⟩ := Option.map_eq_some_iff.1 hitem
  have hi : items[i]? = some v := List.mem_zipIdx_iff_getElem?.1 hmem
  obtain ⟨w, hw⟩ := hdecode v (List.mem_of_getElem? hi) e' (fault?_eq_some.1 he')
  exact ⟨w, hw.under hi⟩

theorem pointsAt_parameter {v : Json} {e : DecodeError} (h : Parameter.ofJson v = .error e) :
    ∃ w, PointsAt v e w := by
  unfold Parameter.ofJson at h
  split at h
  · rename_i fields
    rcases bind_eq_error.1 h with h | ⟨l, hl, h⟩
    · exact pointsAt_nodeLocation h
    · have placed := nodeLocation_eq_ok_iff.1 hl
      have hfault := fault?_eq_some.2 h
      rw [fault?_bind_pure, fault?_withField l "text" fields .text (fun _ _ => rfl)] at hfault
      refine pointsAt_fieldFault placed ?_ hfault
      intro u e' _ he'
      exact .inl (isAbout_decodeString (fault?_eq_some.1 he'))
  · rename_i hno
    cases h
    refine ⟨v, pointsAt_self ⟨rfl, ?_⟩⟩
    rintro ⟨fields, rfl⟩
    exact hno fields rfl

/-- A value in a field has an error of its own, or one of the terms and parameters inside it has. -/
theorem isAbout_or_pointsAt {l : Location} {role : Role} {u : Json} {e : DecodeError}
    (hterm : ∀ v e', sizeOf v ≤ sizeOf u → Term.ofJson v = .error e' → ∃ w, PointsAt v e' w)
    (h : role.fault? l u = some e) : IsAbout l u e ∨ ∃ w, PointsAt u e w := by
  unfold Role.fault? at h
  split at h
  · exact .inl (isAbout_decodeInt (fault?_eq_some.1 h))
  · exact .inl (isAbout_decodeString (fault?_eq_some.1 h))
  · exact .inl (isAbout_decodeBool (fault?_eq_some.1 h))
  · exact .inl (isAbout_decodeOperator (fault?_eq_some.1 h))
  · exact .inr (pointsAt_parameter (fault?_eq_some.1 h))
  · refine .inr (pointsAt_items ?_ h)
    intro v _ e' he'
    exact pointsAt_parameter he'
  · rename_i hno
    cases h
    refine .inl (isAbout_mistyped ?_)
    rintro ⟨items, rfl⟩
    exact hno items rfl
  · exact .inr (hterm u e (Nat.le_refl _) (fault?_eq_some.1 h))
  · rename_i items
    refine .inr (pointsAt_items ?_ h)
    intro v hv e' he'
    have hsize := List.sizeOf_lt_of_mem hv
    refine hterm v e' ?_ he'
    simp only [Json.array.sizeOf_spec]
    omega
  · rename_i hno
    cases h
    refine .inl (isAbout_mistyped ?_)
    rintro ⟨items, rfl⟩
    exact hno items rfl

theorem pointsAt_kind {fields : List (String × Json)} {e : DecodeError} (h : decodeKind fields = .error e) :
    PointsAt (.object fields) e (.object fields) := by
  unfold decodeKind at h
  split at h
  · cases h
  · rename_i kind hno hkind
    cases h
    refine pointsAt_self ⟨fields, kind, rfl, hkind, rfl, ?_⟩
    rintro s rfl
    exact hno s rfl
  · rename_i hmissing
    cases h
    exact pointsAt_self ⟨fields, rfl, hmissing⟩

theorem pointsAt_term {v : Json} {e : DecodeError} (h : Term.ofJson v = .error e) : ∃ w, PointsAt v e w := by
  induction hsize : sizeOf v using Nat.strongRecOn generalizing v e with
  | _ n ih =>
    cases v with
    | object fields =>
      have hobject := h
      rw [Term.ofJson] at h
      rcases bind_eq_error.1 h with h | ⟨name, hname, h⟩
      · exact ⟨_, pointsAt_kind h⟩
      rcases bind_eq_error.1 h with h | ⟨l, hl, h⟩
      · exact pointsAt_nodeLocation h
      have placed := nodeLocation_eq_ok_iff.1 hl
      rw [decodeKind_eq_ok] at hname
      cases hkind : Term.Kind.ofName? name with
      | none =>
        rw [hkind] at h
        cases h
        refine ⟨_, pointsAt_node ⟨fields, rfl, hname, ?_⟩ rfl placed⟩
        rintro kind rfl
        rw [Term.Kind.ofName?_name] at hkind
        cases hkind
      | some kind =>
        rw [← Term.Kind.name_of_ofName? hkind] at hname
        have hfault := fault?_eq_some.2 hobject
        rw [Term.fault?_ofJson_node hname hl] at hfault
        obtain ⟨field, -, hfield⟩ := List.exists_of_findSome?_eq_some hfault
        refine pointsAt_fieldFault placed ?_ hfield
        intro u e' hu he'
        refine isAbout_or_pointsAt ?_ he'
        intro v' e'' hle herror
        have hlt := Json.sizeOf_lt_of_get? hu
        refine ih (sizeOf v') ?_ herror rfl
        simp only [Json.object.sizeOf_spec] at hsize
        omega
    | _ =>
      rw [Term.ofJson] at h
      · cases h
        refine ⟨_, pointsAt_self ⟨rfl, ?_⟩⟩
        rintro ⟨fields, hfields⟩
        cases hfields
      · intro fields hfields
        cases hfields

theorem pointsAt_fileKind {fields : List (String × Json)} {e : DecodeError} (h : checkFileKind fields = .error e) :
    ∃ w, PointsAt (.object fields) e w := by
  unfold checkFileKind at h
  split at h
  · cases h
  · cases h
  · cases h
  · rename_i kind hnull hfile hkind
    cases h
    have hproblem : (Problem.mistyped .fileKind kind.shape).HoldsOf kind := by
      refine ⟨rfl, ?_⟩
      rintro (rfl | rfl)
      · exact hnull rfl
      · exact hfile rfl
    exact ⟨kind, (pointsAt_self hproblem).under hkind⟩

theorem pointsAt_name {fields : List (String × Json)} {l : Location} {e : DecodeError} (placed : PlacedAt fields l)
    (h : decodeName l fields = .error e) : ∃ w, PointsAt (.object fields) e w := by
  unfold decodeName at h
  split at h
  · cases h
  · cases h
  · rename_i v _ hv
    have hfault := fault?_eq_some.2 h
    rw [fault?_within] at hfault
    obtain ⟨e', he', rfl⟩ := Option.map_eq_some_iff.1 hfault
    obtain ⟨problem, rfl, hproblem, hkind⟩ := isAbout_decodeString (fault?_eq_some.1 he')
    exact ⟨v, pointsAt_field hproblem hkind placed hv⟩

theorem pointsAt_program {v : Json} {e : DecodeError} (h : Program.ofJson v = .error e) : ∃ w, PointsAt v e w := by
  unfold Program.ofJson at h
  split at h
  · rename_i fields
    rcases bind_eq_error.1 h with h | ⟨_, -, h⟩
    · exact pointsAt_fileKind h
    rcases bind_eq_error.1 h with h | ⟨l, hl, h⟩
    · exact pointsAt_nodeLocation h
    rcases bind_eq_error.1 h with h | ⟨name, -, h⟩
    · exact pointsAt_name (nodeLocation_eq_ok_iff.1 hl) h
    have hfault := fault?_eq_some.2 h
    rw [fault?_bind_pure] at hfault
    unfold withField at hfault
    split at hfault
    · rename_i u hu
      rw [fault?_within] at hfault
      obtain ⟨e', he', rfl⟩ := Option.map_eq_some_iff.1 hfault
      obtain ⟨w, hw⟩ := pointsAt_term (fault?_eq_some.1 he')
      exact ⟨w, hw.under hu⟩
    · rename_i hmissing
      cases hfault
      exact ⟨_, pointsAt_self ⟨fields, rfl, hmissing⟩⟩
  · rename_i hno
    cases h
    refine ⟨v, pointsAt_self ⟨rfl, ?_⟩⟩
    rintro ⟨fields, rfl⟩
    exact hno fields rfl

/-! ### Messages -/

theorem missing_inj {other name : String} (h : "missing field `" ++ other ++ "`" = "missing field `" ++ name ++ "`") :
    other = name := by
  rwa [String.append_left_inj, String.append_right_inj] at h

theorem head_append {c : Char} {s rest : String} (h : s.toList.head? = some c) :
    (s ++ rest).toList.head? = some c := by
  rw [String.toList_append, List.head?_append, h]
  rfl

theorem ne_missing_of_head {s name : String} {c : Char} (hs : s.toList.head? = some c) (hc : c ≠ 'm') :
    s ≠ "missing field `" ++ name ++ "`" := by
  have hmissing : ("missing field `" ++ name ++ "`").toList.head? = some 'm' := head_append (head_append rfl)
  intro h
  rw [h, hmissing] at hs
  exact hc (Option.some.inj hs).symm

-- A missing field is told from all other faults by the first letter of its text.
theorem LocationFault.text_eq_missing {fault : LocationFault} {name : String}
    (h : fault.text = "missing field `" ++ name ++ "`") : fault = .missingField name := by
  have hno {s : String} : s.toList.head? = some 'i' → s ≠ "missing field `" ++ name ++ "`" :=
    fun hs => ne_missing_of_head hs (by decide)
  cases fault with
  | missingField other => exact congrArg _ (missing_inj h)
  | notLocation found => exact absurd h (hno (head_append (head_append rfl)))
  | notOffset found => exact absurd h (hno (head_append (head_append rfl)))
  | offsetOutOfRange value => exact absurd h (hno (head_append (head_append rfl)))
  | notFilename found => exact absurd h (hno (head_append (head_append rfl)))
  | tooFewItems count => exact absurd h (hno (head_append (head_append rfl)))
  | tooManyItems count => exact absurd h (hno (head_append (head_append rfl)))
  | reversed start stop =>
    have hhead : (LocationFault.reversed start stop).text.toList.head? = some '`' :=
      head_append (head_append (head_append (head_append rfl)))
    exact absurd h (ne_missing_of_head hhead (by decide))

theorem lacks_of_detail {w : Json} {problem : Problem} {name : String} (h : problem.HoldsOf w)
    (hcode : problem.code = .malformedDocument) (hdetail : problem.detail = "missing field `" ++ name ++ "`") :
    Lacks w name := by
  cases problem with
  | unreadable error => exact False.elim h
  | missingField other =>
    obtain rfl := missing_inj hdetail
    exact h
  | badLocation fault => exact h.2 name (LocationFault.text_eq_missing hdetail)
  | unknownKind other => cases hcode
  | mistyped expected found =>
    have hhead : (Problem.mistyped expected found).detail.toList.head? = some 'e' :=
      head_append (head_append (head_append rfl))
    exact absurd hdetail (ne_missing_of_head hhead (by decide))
  | kindNotString found =>
    have hhead : (Problem.kindNotString found).detail.toList.head? = some '`' := head_append rfl
    exact absurd hdetail (ne_missing_of_head hhead (by decide))
  | unknownOperator other =>
    have hhead : (Problem.unknownOperator other).detail.toList.head? = some 'u' := head_append (head_append rfl)
    exact absurd hdetail (ne_missing_of_head hhead (by decide))

theorem placedAt_ordered {fields : List (String × Json)} {l : Location} (h : PlacedAt fields l) :
    l.toSpan.Ordered :=
  ordered_of_nodeLocation (nodeLocation_eq_ok_iff.2 h)

/-- A location that an error carries was decoded, from the value itself or from the object around it. -/
theorem PointsAt.ordered {v w : Json} {e : DecodeError} (h : PointsAt v e w) {l : Location} (hl : e.location = some l) :
    l.toSpan.Ordered := by
  cases hnode : e.problem.isOfNode with
  | true =>
    obtain ⟨fields, -, placed⟩ := h.own l hl hnode
    exact placedAt_ordered placed
  | false =>
    obtain ⟨path, name, fields, -, -, placed⟩ := h.holder l hl hnode
    exact placedAt_ordered placed

/-- Following the path of the error, step by step or as it is written, reaches the fault. A location does not run
backwards, and if the message is that of a missing field, the field is missing there. -/
def LeadsToFault (v : Json) (e : DecodeError) : Prop :=
  ∃ w, PointsAt v e w ∧ Reaches e.pathText v w ∧ (∀ l, e.location = some l → l.toSpan.Ordered) ∧
    ∀ name, e.code = .malformedDocument → e.problem.detail = "missing field `" ++ name ++ "`" → Lacks w name

theorem leadsToFault_of_pointsAt {v : Json} {e : DecodeError} (h : ∃ w, PointsAt v e w) : LeadsToFault v e := by
  obtain ⟨w, hw⟩ := h
  refine ⟨w, hw, reaches_of_follow hw.reached, fun l hl => hw.ordered hl, ?_⟩
  intro name hcode hdetail
  exact lacks_of_detail hw.problem hcode hdetail

/-- The expression of a file is all that can fail once its own fields are read. -/
theorem fault?_ofJson_program {fields : List (String × Json)} {l : Location} {name : String} {v : Json}
    (file : SaysFile fields) (placed : PlacedAt fields l) (named : Named fields name)
    (hv : Json.get? "expression" fields = some v) :
    fault? (Program.ofJson (.object fields)) = (fault? (Term.ofJson v)).map (·.under (.field "expression")) := by
  rw [Program.ofJson, checkFileKind_eq_ok_iff.2 file, nodeLocation_eq_ok_iff.2 placed]
  simp only [bind_ok, decodeName_eq_ok_iff.2 named, fault?_bind_pure]
  unfold withField
  split
  · rename_i u hu
    obtain rfl := Option.some.inj (hv.symm.trans hu)
    exact fault?_within _ _
  · rename_i hmissing
    rw [hv] at hmissing
    cases hmissing

/-- The path of an error leads to a value that has the problem. Errors compose: the error of a node is the first one of
its fields, which is the error of the value in the field alone with the field, or the field and the position of an item,
put in front of its path. -/
theorem error_leads_to_fault :
    (∀ v e, Term.ofJson v = .error e → LeadsToFault v e) ∧
    (∀ v e, Program.ofJson v = .error e → LeadsToFault v e) ∧
    (∀ fields (kind : Term.Kind) l, Json.get? "kind" fields = some (.string kind.name) → PlacedAt fields l →
      fault? (Term.ofJson (.object fields)) = kind.layout.findSome? (fieldFault? l fields)) ∧
    (∀ fields l name v, SaysFile fields → PlacedAt fields l → Named fields name →
      Json.get? "expression" fields = some v →
      fault? (Program.ofJson (.object fields)) = (fault? (Term.ofJson v)).map (·.under (.field "expression"))) := by
  refine ⟨?_, ?_, ?_, ?_⟩
  · intro v e h
    exact leadsToFault_of_pointsAt (pointsAt_term h)
  · intro v e h
    exact leadsToFault_of_pointsAt (pointsAt_program h)
  · intro fields kind l hkind placed
    exact Term.fault?_ofJson_node hkind (nodeLocation_eq_ok_iff.2 placed)
  · intro fields l name v file placed named hv
    exact fault?_ofJson_program file placed named hv

/-- The second argument of a call is of no known kind. Its error is found through the call and through the file. -/
theorem error_leads_to_fault_in_argument :
    let bad := Json.object [("kind", .string "Nope"), ("location", Location.toJson ⟨⟨3, 9⟩, "a"⟩)]
    let good := Json.object [("kind", .string "Int"), ("value", .ofInt 1)]
    let callee := Json.object [("kind", .string "Var"), ("text", .string "f")]
    let call := [("arguments", .array [good, bad]), ("callee", callee), ("kind", .string "Call")]
    let file := [("expression", Json.object call)]
    let e : DecodeError := ⟨[], some ⟨⟨3, 9⟩, "a"⟩, .unknownKind "Nope"⟩
    let inCall := (e.under (.index 1)).under (.field "arguments")
    let inFile := inCall.under (.field "expression")
    Term.ofJson bad = .error e ∧
    (Term.ofJson (.object call) = .error inCall ∧ LeadsToFault (.object call) inCall) ∧
    (Program.ofJson (.object file) = .error inFile ∧ LeadsToFault (.object file) inFile) ∧
    Json.get? "kind" call = some (.string Term.Kind.call.name) ∧ PlacedAt call .unknown ∧
    SaysFile file ∧ PlacedAt file .unknown ∧ Named file "" := by
  intro bad good callee call file e inCall inFile
  obtain ⟨hterms, hprograms, hnodes, hfiles⟩ := error_leads_to_fault
  have hbad : Term.ofJson bad = .error e := fault?_eq_some.1 (by decide +kernel)
  have placed : PlacedAt call .unknown := .absent rfl
  have hfile : SaysFile file := .absent rfl
  have hcall : Term.ofJson (.object call) = .error inCall := by
    rw [← fault?_eq_some, hnodes call .call .unknown rfl placed]
    decide +kernel
  have hwhole : Program.ofJson (.object file) = .error inFile := by
    rw [← fault?_eq_some, hfiles file .unknown "" (.object call) hfile (.absent rfl) (.absent rfl) rfl, hcall]
    rfl
  exact ⟨hbad, ⟨hcall, hterms _ _ hcall⟩, ⟨hwhole, hprograms _ _ hwhole⟩, rfl, placed, hfile, .absent rfl, .absent rfl⟩

end Document

end Treewalk

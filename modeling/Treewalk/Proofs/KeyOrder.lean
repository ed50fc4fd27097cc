import Mathlib.Data.List.Nodup
import Treewalk.Json.Basic

/-! JSON values up to the order of their fields.

`inKeyOrder` puts the fields of every object into key order, as they are in every value that was read. Fields in key
order are determined by what `get?` finds in them. -/
namespace Treewalk.Json

/-- Fields in key order. The first field with a key counts, as it does for `get?`. -/
def orderFields (fields : List (String × Json)) : List (String × Json) :=
  fields.foldr (fun field => setField field.1 field.2) []

mutual

/-- The same value, with the fields of every object in key order. -/
def inKeyOrder : Json → Json
  | .array items => .array (itemsInKeyOrder items)
  | .object fields => .object (fieldsInKeyOrder fields)
  | v => v

def itemsInKeyOrder : List Json → List Json
  | [] => []
  | v :: rest => inKeyOrder v :: itemsInKeyOrder rest

def fieldsInKeyOrder : List (String × Json) → List (String × Json)
  | [] => []
  | (key, v) :: rest => setField key (inKeyOrder v) (fieldsInKeyOrder rest)

end

def Sorted (fields : List (String × Json)) : Prop := fields.Pairwise fun f g => f.1 < g.1

variable {key : String} {v : Json} {fields fields' : List (String × Json)}

theorem mem_keys_iff : key ∈ fields.map Prod.fst ↔ ∃ v, get? key fields = some v := by
  induction fields with
  | nil => simp [get?]
  | cons field rest ih =>
    rw [List.map_cons, List.mem_cons, ih, get?]
    split
    · rename_i h
      simp [h]
    · rename_i h
      simp [Ne.symm h]

theorem get?_setField (name : String) :
    get? name (setField key v fields) = if key = name then some v else get? name fields := by
  induction fields with
  | nil => rfl
  | cons field rest ih =>
    obtain ⟨k, u⟩ := field
    rw [setField]
    split
    · rfl
    · split
      · rename_i h
        subst h
        simp only [get?]
        split <;> rfl
      · rename_i h
        simp only [get?, ih]
        split
        · rename_i hk
          rw [if_neg (hk ▸ h)]
        · rfl

theorem get?_orderFields (name : String) : get? name (orderFields fields) = get? name fields := by
  induction fields with
  | nil => rfl
  | cons field rest ih =>
    rw [orderFields, List.foldr_cons, get?_setField, ← orderFields, ih, get?]

theorem mem_setField {field : String × Json} (h : field ∈ setField key v fields) :
    field = (key, v) ∨ field ∈ fields := by
  induction fields with
  | nil => exact .inl (List.mem_singleton.1 h)
  | cons first rest ih =>
    rw [setField] at h
    split at h
    · exact List.mem_cons.1 h
    · split at h
      · exact (List.mem_cons.1 h).imp_right (List.mem_cons_of_mem _)
      · rcases List.mem_cons.1 h with rfl | h
        · exact .inr List.mem_cons_self
        · exact (ih h).imp_right (List.mem_cons_of_mem _)

theorem sorted_setField (h : Sorted fields) : Sorted (setField key v fields) := by
  induction fields with
  | nil => exact List.pairwise_singleton _ _
  | cons first rest ih =>
    obtain ⟨hfirst, hrest⟩ := List.pairwise_cons.1 h
    rw [setField]
    split
    · rename_i hlt
      refine List.pairwise_cons.2 ⟨List.forall_mem_cons.2 ⟨hlt, fun field hfield => ?_⟩, h⟩
      exact String.lt_trans hlt (hfirst field hfield)
    · rename_i hle
      split
      · rename_i heq
        subst heq
        exact List.pairwise_cons.2 ⟨hfirst, hrest⟩
      · rename_i hne
        refine List.pairwise_cons.2 ⟨fun field hfield => ?_, ih hrest⟩
        rcases mem_setField hfield with rfl | hfield
        · exact Std.lt_of_le_of_ne (String.not_lt.1 hle) (Ne.symm hne)
        · exact hfirst field hfield

theorem sorted_orderFields (fields : List (String × Json)) : Sorted (orderFields fields) := by
  induction fields with
  | nil => exact List.Pairwise.nil
  | cons field rest ih => exact sorted_setField ih

theorem mem_orderFields {field : String × Json} (h : field ∈ orderFields fields) : field ∈ fields := by
  induction fields with
  | nil => exact h
  | cons first rest ih =>
    rcases mem_setField h with rfl | h
    · exact List.mem_cons_self
    · exact List.mem_cons_of_mem _ (ih h)

theorem get?_eq_some_of_mem (h : (fields.map Prod.fst).Nodup) (hmem : (key, v) ∈ fields) :
    get? key fields = some v := by
  induction fields with
  | nil => cases hmem
  | cons field rest ih =>
    obtain ⟨hfield, hrest⟩ := List.nodup_cons.1 h
    rcases List.mem_cons.1 hmem with rfl | hmem
    · rw [get?, if_pos rfl]
    · have hne : field.1 ≠ key := by
        intro heq
        exact hfield (List.mem_map.2 ⟨(key, v), hmem, heq.symm⟩)
      rw [get?, if_neg hne]
      exact ih hrest hmem

theorem mem_of_get?_eq_some (h : get? key fields = some v) : (key, v) ∈ fields := by
  induction fields with
  | nil => cases h
  | cons field rest ih =>
    rw [get?] at h
    split at h
    · rename_i heq
      cases h
      rw [← heq]
      exact List.mem_cons_self
    · exact List.mem_cons_of_mem _ (ih h)

theorem Sorted.nodup_keys (h : Sorted fields) : (fields.map Prod.fst).Nodup :=
  List.pairwise_map.2 (h.imp String.ne_of_lt)

/-- Fields in key order are the same as soon as the same is found in them. -/
theorem Sorted.eq_of_get?_eq (h : Sorted fields) (h' : Sorted fields')
    (hget : ∀ key, get? key fields = get? key fields') : fields = fields' := by
  have hmem (field : String × Json) : field ∈ fields ↔ field ∈ fields' := by
    constructor
    · intro hfield
      exact mem_of_get?_eq_some (hget field.1 ▸ get?_eq_some_of_mem h.nodup_keys hfield)
    · intro hfield
      exact mem_of_get?_eq_some ((hget field.1).symm ▸ get?_eq_some_of_mem h'.nodup_keys hfield)
  have hperm := (List.perm_ext_iff_of_nodup h.nodup_keys.of_map h'.nodup_keys.of_map).2 hmem
  apply hperm.eq_of_pairwise _ h h'
  intro f g _ _ hlt hgt
  exact absurd hlt (String.lt_asymm hgt)

theorem itemsInKeyOrder_eq_map (items : List Json) : itemsInKeyOrder items = items.map inKeyOrder := by
  induction items with
  | nil => rw [itemsInKeyOrder, List.map_nil]
  | cons v rest ih => rw [itemsInKeyOrder, List.map_cons, ih]

theorem inKeyOrder_array (items : List Json) : (array items).inKeyOrder = .array (items.map inKeyOrder) := by
  rw [inKeyOrder, itemsInKeyOrder_eq_map]

theorem sorted_fieldsInKeyOrder (fields : List (String × Json)) : Sorted (fieldsInKeyOrder fields) := by
  induction fields with
  | nil => exact List.Pairwise.nil
  | cons field rest ih => exact sorted_setField ih

theorem get?_fieldsInKeyOrder (name : String) :
    get? name (fieldsInKeyOrder fields) = (get? name fields).map inKeyOrder := by
  induction fields with
  | nil => rw [fieldsInKeyOrder, get?, Option.map_none]
  | cons field rest ih =>
    rw [fieldsInKeyOrder, get?_setField, ih, get?]
    split <;> rfl

@[simp] theorem get?_fieldsInKeyOrder_eq_some {name : String} {w : Json} :
    get? name (fieldsInKeyOrder fields) = some w ↔ ∃ v, get? name fields = some v ∧ v.inKeyOrder = w := by
  rw [get?_fieldsInKeyOrder, Option.map_eq_some_iff]

@[simp] theorem get?_fieldsInKeyOrder_eq_none {name : String} :
    get? name (fieldsInKeyOrder fields) = none ↔ get? name fields = none := by
  rw [get?_fieldsInKeyOrder, Option.map_eq_none_iff]

@[simp] theorem inKeyOrder_eq_null : v.inKeyOrder = .null ↔ v = .null := by
  cases v <;> simp [inKeyOrder]

@[simp] theorem inKeyOrder_eq_bool {b : Bool} : v.inKeyOrder = .bool b ↔ v = .bool b := by
  cases v <;> simp [inKeyOrder]

@[simp] theorem inKeyOrder_eq_number {x : Number} : v.inKeyOrder = .number x ↔ v = .number x := by
  cases v <;> simp [inKeyOrder]

@[simp] theorem inKeyOrder_eq_string {s : String} : v.inKeyOrder = .string s ↔ v = .string s := by
  cases v <;> simp [inKeyOrder]

theorem inKeyOrder_eq_array {items : List Json} :
    v.inKeyOrder = .array items ↔ ∃ items', v = .array items' ∧ items'.map inKeyOrder = items := by
  cases v <;> simp [inKeyOrder, itemsInKeyOrder_eq_map]

end Treewalk.Json

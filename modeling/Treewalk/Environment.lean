import Treewalk.Value

/-! Bindings of names, with each name at most once.

There is no chain of scopes: a binding form extends an environment in place, and a call works on a copy of
its caller's. A name that is bound again keeps its place in the list of entries. -/
namespace Treewalk

/-- What a name stands for: a function bound by its literal, which can be called, or a value. -/
inductive Binding where
  | function (value : Function)
  | value (value : Value)
deriving DecidableEq, Repr

namespace Environment

def find? (name : String) : List (String × Binding) → Option Binding
  | [] => none
  | (n, b) :: rest => if n = name then some b else find? name rest

/-- Replaces the binding of a name where it stands, or adds one at the end. -/
def put (name : String) (binding : Binding) : List (String × Binding) → List (String × Binding)
  | [] => [(name, binding)]
  | (n, b) :: rest => if n = name then (n, binding) :: rest else (n, b) :: put name binding rest

theorem find?_put (name other : String) (binding : Binding) (entries : List (String × Binding)) :
    find? other (put name binding entries) = if name = other then some binding else find? other entries := by
  induction entries with
  | nil => simp [put, find?]
  | cons entry rest ih =>
    obtain ⟨n, b⟩ := entry
    by_cases h : n = name
    · subst h
      simp only [put, if_true, find?]
      split <;> rfl
    · simp only [put, h, if_false, find?, ih]
      by_cases hn : n = other
      · have hne : name ≠ other := fun e => h (hn.trans e.symm)
        simp [hn, hne]
      · simp [hn]

def keys (entries : List (String × Binding)) : List String := entries.map Prod.fst

@[simp] theorem keys_nil : keys [] = [] := rfl

@[simp] theorem keys_cons (name : String) (binding : Binding) (rest : List (String × Binding)) :
    keys ((name, binding) :: rest) = name :: keys rest := rfl

/-- A name that is there keeps its place, and a new one goes to the end. -/
theorem keys_put (name : String) (binding : Binding) (entries : List (String × Binding)) :
    keys (put name binding entries) = if name ∈ keys entries then keys entries else keys entries ++ [name] := by
  induction entries with
  | nil => rfl
  | cons entry rest ih =>
    obtain ⟨n, b⟩ := entry
    by_cases h : n = name
    · subst h
      simp [put]
    · have hne : name ≠ n := fun e => h e.symm
      by_cases hmem : name ∈ keys rest
      · simp [put, h, ih, hmem]
      · simp [put, h, ih, hmem, hne]

theorem nodup_keys_put {name : String} {binding : Binding} {entries : List (String × Binding)}
    (h : (keys entries).Nodup) : (keys (put name binding entries)).Nodup := by
  rw [keys_put]
  split
  · exact h
  · rename_i hname
    refine List.nodup_append.2 ⟨h, by simp, fun other hother _ hsingle => ?_⟩
    obtain rfl := List.mem_singleton.1 hsingle
    exact fun e => hname (e ▸ hother)

theorem isSome_find?_iff {name : String} {entries : List (String × Binding)} :
    (find? name entries).isSome = true ↔ name ∈ keys entries := by
  induction entries with
  | nil => simp [find?]
  | cons entry rest ih =>
    obtain ⟨n, b⟩ := entry
    by_cases h : n = name
    · simp [find?, h]
    · have hne : name ≠ n := fun e => h e.symm
      simp [find?, h, hne, ih]

/-- Entries are determined by their names, in their order, and the bindings of these. -/
theorem eq_of_find?_eq {xs ys : List (String × Binding)} (hkeys : keys xs = keys ys) (hnodup : (keys xs).Nodup)
    (h : ∀ name ∈ keys xs, find? name xs = find? name ys) : xs = ys := by
  induction xs generalizing ys with
  | nil =>
    cases ys with
    | nil => rfl
    | cons entry rest => cases hkeys
  | cons entry rest ih =>
    cases ys with
    | nil => cases hkeys
    | cons entry' rest' =>
      obtain ⟨n, b⟩ := entry
      obtain ⟨n', b'⟩ := entry'
      obtain ⟨hname, hrest⟩ := List.cons.inj hkeys
      obtain rfl : n = n' := hname
      obtain ⟨hnew, hnodup⟩ := List.nodup_cons.1 hnodup
      have hbinding : b = b' := by simpa [find?] using h n List.mem_cons_self
      have hentries : rest = rest' := by
        refine ih hrest hnodup fun name hmem => ?_
        have hne : n ≠ name := fun e => hnew (e ▸ hmem)
        simpa [find?, hne] using h name (List.mem_cons_of_mem n hmem)
      rw [hbinding, hentries]

end Environment

structure Environment where
  entries : List (String × Binding)
  nodup : (Environment.keys entries).Nodup

namespace Environment

def empty : Environment := ⟨[], List.nodup_nil⟩

def lookup (env : Environment) (name : String) : Option Binding := find? name env.entries

def bind (env : Environment) (name : String) (binding : Binding) : Environment :=
  ⟨put name binding env.entries, nodup_keys_put env.nodup⟩

@[simp] theorem lookup_empty (name : String) : empty.lookup name = none := rfl

@[simp] theorem lookup_bind (env : Environment) (name other : String) (binding : Binding) :
    (env.bind name binding).lookup other = if name = other then some binding else env.lookup other :=
  find?_put name other binding env.entries

/-- A copy with further names bound to values, the last pair of a name winning. -/
def fork (env : Environment) (values : List (String × Value)) : Environment :=
  values.foldl (fun env pair => env.bind pair.1 (.value pair.2)) env

def contains (env : Environment) (name : String) : Bool := (env.lookup name).isSome

theorem contains_iff_mem_keys {env : Environment} {name : String} :
    env.contains name = true ↔ name ∈ keys env.entries := isSome_find?_iff

theorem eq_of_lookup_eq {env env' : Environment} (hkeys : keys env.entries = keys env'.entries)
    (h : ∀ name ∈ keys env.entries, env.lookup name = env'.lookup name) : env = env' := by
  obtain ⟨entries, hnodup⟩ := env
  obtain ⟨entries', hnodup'⟩ := env'
  obtain rfl : entries = entries' := eq_of_find?_eq hkeys hnodup h
  rfl

theorem contains_bind {env : Environment} {name other : String} {binding : Binding} :
    (env.bind name binding).contains other = true ↔ name = other ∨ env.contains other = true := by
  by_cases h : name = other <;> simp [contains, h]

theorem contains_fork {env : Environment} {values : List (String × Value)} {name : String} :
    (env.fork values).contains name = true ↔ name ∈ values.map Prod.fst ∨ env.contains name = true := by
  induction values generalizing env with
  | nil => simp [fork]
  | cons pair rest ih =>
    have hrest : (env.fork (pair :: rest)).contains name = true ↔
        name ∈ rest.map Prod.fst ∨ (env.bind pair.1 (.value pair.2)).contains name = true := ih
    rw [hrest, contains_bind, List.map_cons, List.mem_cons, or_assoc, or_left_comm, eq_comm]

theorem lookup_of_fork_function {env : Environment} {values : List (String × Value)} {name : String} {f : Function}
    (h : (env.fork values).lookup name = some (.function f)) : env.lookup name = some (.function f) := by
  induction values generalizing env with
  | nil => exact h
  | cons pair rest ih =>
    have hbound : (env.bind pair.1 (.value pair.2)).lookup name = some (.function f) := ih h
    rw [lookup_bind] at hbound
    split at hbound
    · cases hbound
    · exact hbound

def size (env : Environment) : Nat := env.entries.length

def isEmpty (env : Environment) : Bool := env.entries.isEmpty

end Environment

end Treewalk

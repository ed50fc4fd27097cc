import Mathlib.Data.Set.Card
import Treewalk.Proofs.Bindings

/-! Environments through any history.

Several environments are created, bound in, copied and evaluated in, in any order. The history of an environment lists
the bindings that led to it, those of the environment that it was copied from first. Every answer of an environment is
read off its history, where the last binding of a name counts, and none is changed by what happens to another. -/
namespace Treewalk.Environment

/-! ### Finite maps -/

theorem lookup_bindAll (env : Environment) (bindings : List (String × Binding)) (name : String) :
    (env.bindAll bindings).lookup name = (bindings.reverse.lookup name).or (env.lookup name) := by
  induction bindings generalizing env with
  | nil => rfl
  | cons entry rest ih =>
    obtain ⟨n, b⟩ := entry
    rw [bindAll_cons, ih, lookup_bind, List.reverse_cons, List.lookup_append, Option.or_assoc]
    -- The oldest binding is asked last, right before the environment itself.
    by_cases h : n = name
    · subst h
      simp
    · have hne : (name == n) = false := beq_false_of_ne (Ne.symm h)
      simp [List.lookup_cons, h, hne]

theorem lookup_valueBindings (values : List (String × Value)) (name : String) :
    (valueBindings values).lookup name = (values.lookup name).map .value := by
  induction values with
  | nil => rfl
  | cons pair rest ih =>
    have hcons : valueBindings (pair :: rest) = (pair.1, .value pair.2) :: valueBindings rest := rfl
    rw [hcons, List.lookup_cons, ih, List.lookup_cons]
    cases name == pair.1 <;> rfl

/-- A copy has the last pair of a name as a value, and otherwise what its source has. -/
theorem lookup_fork (env : Environment) (values : List (String × Value)) (name : String) :
    (env.fork values).lookup name = ((values.reverse.lookup name).map .value).or (env.lookup name) := by
  have hreverse : (valueBindings values).reverse = valueBindings values.reverse := List.map_reverse.symm
  rw [fork_eq_bindAll, lookup_bindAll, hreverse, lookup_valueBindings]

theorem encard_bound (env : Environment) : {name | env.contains name = true}.encard = env.size := by
  have hnames : {name | env.contains name = true} = ((keys env.entries).toFinset : Set String) := by
    ext name
    simp [contains_iff_mem_keys]
  rw [hnames, Set.encard_coe_eq_coe_finsetCard, List.toFinset_card_of_nodup env.nodup, keys, List.length_map, size]

theorem isEmpty_iff (env : Environment) : env.isEmpty = true ↔ ∀ name, env.contains name = false := by
  have hkeys : env.isEmpty = true ↔ keys env.entries = [] := by
    rw [isEmpty, List.isEmpty_iff, keys, List.map_eq_nil_iff]
  rw [hkeys, List.eq_nil_iff_forall_not_mem]
  refine forall_congr' fun name => ?_
  rw [← contains_iff_mem_keys, Bool.not_eq_true]

/-- An environment answers every question as a history of bindings says, the oldest first. -/
structure AnswersBy (env : Environment) (history : List (String × Binding)) : Prop where
  lookup : ∀ name, env.lookup name = history.reverse.lookup name
  contains : ∀ name, env.contains name = true ↔ ∃ binding, env.lookup name = some binding
  /-- As many as there are names bound, each counted once. -/
  size : {name | env.contains name = true}.encard = env.size
  isEmpty : env.isEmpty = true ↔ ∀ name, env.contains name = false

theorem answersBy_bindAll (history : List (String × Binding)) : (empty.bindAll history).AnswersBy history where
  lookup name := by rw [lookup_bindAll, lookup_empty, Option.or_none]
  contains _ := Option.isSome_iff_exists
  size := encard_bound _
  isEmpty := isEmpty_iff _

/-! ### Histories -/

/-- An environment with the bindings that led to it from the empty one, oldest first. -/
structure Recorded where
  environment : Environment
  history : List (String × Binding)

namespace Recorded

def fresh : Recorded := ⟨.empty, []⟩

def bind (r : Recorded) (name : String) (binding : Binding) : Recorded :=
  ⟨r.environment.bind name binding, r.history ++ [(name, binding)]⟩

def fork (r : Recorded) (values : List (String × Value)) : Recorded :=
  ⟨r.environment.fork values, r.history ++ valueBindings values⟩

def evaluate (r : Recorded) (e : Evaluator) (t : Term) : Recorded :=
  ⟨(e.evaluate t r.environment).2.1, r.history ++ e.bindings t r.environment⟩

def Faithful (r : Recorded) : Prop := r.environment = Environment.empty.bindAll r.history

theorem Faithful.extend {r : Recorded} (h : r.Faithful) {env : Environment} {added : List (String × Binding)}
    (henv : env = r.environment.bindAll added) : Faithful ⟨env, r.history ++ added⟩ := by
  calc env = r.environment.bindAll added := henv
    _ = (Environment.empty.bindAll r.history).bindAll added := congrArg (·.bindAll added) h
    _ = Environment.empty.bindAll (r.history ++ added) := (bindAll_append ..).symm

theorem Faithful.bind {r : Recorded} (h : r.Faithful) (name : String) (binding : Binding) :
    (r.bind name binding).Faithful := h.extend rfl

theorem Faithful.fork {r : Recorded} (h : r.Faithful) (values : List (String × Value)) : (r.fork values).Faithful :=
  h.extend (fork_eq_bindAll ..)

theorem Faithful.evaluate {r : Recorded} (h : r.Faithful) (e : Evaluator) (t : Term) : (r.evaluate e t).Faithful :=
  h.extend (e.evaluate_environment t r.environment)

end Recorded

/-- Something done to the environments of a collection, which are numbered as they come. An evaluation may be that of
any evaluator, and may fail. -/
inductive Action where
  | create
  | bind (target : Nat) (name : String) (binding : Binding)
  | fork (source : Nat) (values : List (String × Value))
  | evaluate (target : Nat) (e : Evaluator) (t : Term)

/-- The collection after an action. Nothing is done to an environment that is not there. -/
def perform (rs : List Recorded) : Action → List Recorded
  | .create => rs ++ [.fresh]
  | .bind target name binding => rs.modify target (·.bind name binding)
  | .fork source values => rs ++ (rs[source]?.map (·.fork values)).toList
  | .evaluate target e t => rs.modify target (·.evaluate e t)

def performAll (actions : List Action) : List Recorded := actions.foldl perform []

theorem performAll_append (actions later : List Action) :
    performAll (actions ++ later) = later.foldl perform (performAll actions) := List.foldl_append

theorem faithful_modify {rs : List Recorded} {change : Recorded → Recorded} (h : ∀ r ∈ rs, r.Faithful)
    (hchange : ∀ r, r.Faithful → (change r).Faithful) (target : Nat) :
    ∀ r ∈ rs.modify target change, r.Faithful := by
  intro r hr
  obtain ⟨i, hi⟩ := List.mem_iff_getElem?.1 hr
  rw [List.getElem?_modify] at hi
  obtain ⟨r₀, hr₀, rfl⟩ := Option.map_eq_some_iff.1 hi
  have hfaithful : r₀.Faithful := h r₀ (List.mem_of_getElem? hr₀)
  split
  · exact hchange r₀ hfaithful
  · exact hfaithful

theorem faithful_perform {rs : List Recorded} (h : ∀ r ∈ rs, r.Faithful) (action : Action) :
    ∀ r ∈ perform rs action, r.Faithful := by
  cases action with
  | create =>
    refine List.forall_mem_append.2 ⟨h, fun r hr => ?_⟩
    obtain rfl := List.mem_singleton.1 hr
    rfl
  | bind target name binding => exact faithful_modify h (fun r hr => hr.bind name binding) target
  | fork source values =>
    refine List.forall_mem_append.2 ⟨h, fun r hr => ?_⟩
    obtain ⟨r₀, hr₀, rfl⟩ := Option.map_eq_some_iff.1 (Option.mem_toList.1 hr)
    exact (h r₀ (List.mem_of_getElem? hr₀)).fork values
  | evaluate target e t => exact faithful_modify h (fun r hr => hr.evaluate e t) target

theorem faithful_performAll (actions : List Action) : ∀ r ∈ performAll actions, r.Faithful := by
  induction actions using List.reverseRecOn with
  | nil => nofun
  | append_singleton actions action ih =>
    rw [performAll_append]
    exact faithful_perform ih action

/-! ### Each environment on its own -/

/-- The action is one on the environment of this number. Copying it does nothing to it. -/
def Action.changes (i : Nat) : Action → Bool
  | .create => false
  | .bind target _ _ => target == i
  | .fork _ _ => false
  | .evaluate target _ _ => target == i

def Action.effect : Action → Recorded → Recorded
  | .create, r => r
  | .bind _ name binding, r => r.bind name binding
  | .fork _ _, r => r
  | .evaluate _ e t, r => r.evaluate e t

variable {rs : List Recorded} {i : Nat} {r : Recorded}

theorem getElem?_perform (h : rs[i]? = some r) (action : Action) :
    (perform rs action)[i]? = some (if action.changes i then action.effect r else r) := by
  have hi : i < rs.length := (List.getElem?_eq_some_iff.1 h).1
  cases action with
  | create => exact (List.getElem?_append_left hi).trans h
  | bind target name binding => simp [perform, List.getElem?_modify, h, Action.changes, Action.effect]
  | fork source values => exact (List.getElem?_append_left hi).trans h
  | evaluate target e t => simp [perform, List.getElem?_modify, h, Action.changes, Action.effect]

/-- What becomes of an environment is the work of its own actions. -/
theorem getElem?_foldl_perform (h : rs[i]? = some r) (later : List Action) :
    (later.foldl perform rs)[i]? =
      some ((later.filter (·.changes i)).foldl (fun r action => action.effect r) r) := by
  induction later generalizing rs r with
  | nil => exact h
  | cons action later ih =>
    rw [List.foldl_cons, ih (getElem?_perform h action), List.filter_cons]
    split <;> rfl

/-- Every environment that comes about by creation, bindings, copies and evaluations, in any order, answers by its
history. A copy starts with the last pair of each name as a value, and otherwise with what its source has at that time.
Later on, each environment is as if nothing had been done to any other. -/
theorem answers_by_history (actions : List Action) :
    (∀ r ∈ performAll actions, r.environment.AnswersBy r.history) ∧
    (∀ source r values, (performAll actions)[source]? = some r →
      ∃ copy, performAll (actions ++ [.fork source values]) = performAll actions ++ [copy] ∧
        ∀ name, copy.environment.lookup name =
          ((values.reverse.lookup name).map .value).or (r.environment.lookup name)) ∧
    ∀ later i, i < (performAll actions).length →
      (performAll (actions ++ later))[i]? = (performAll (actions ++ later.filter (·.changes i)))[i]? := by
  refine ⟨fun r hr => ?_, fun source r values hr => ⟨r.fork values, ?_, lookup_fork _ values⟩, fun later i hi => ?_⟩
  · have hfaithful : r.environment = empty.bindAll r.history := faithful_performAll actions r hr
    rw [hfaithful]
    exact answersBy_bindAll r.history
  · have hcopy : performAll (actions ++ [.fork source values]) =
        performAll actions ++ ((performAll actions)[source]?.map (·.fork values)).toList := performAll_append ..
    rw [hcopy, hr]
    rfl
  · have hthere := List.getElem?_eq_getElem hi
    rw [performAll_append, performAll_append, getElem?_foldl_perform hthere, getElem?_foldl_perform hthere,
      List.filter_filter]
    simp only [Bool.and_self]

/-- The copy has two pairs for `x`. An evaluation on it reads the second one, binds it to `y` and fails; then `x` is
bound again in the source. -/
theorem answers_by_history_of_copy :
    let l := Location.unknown
    let t := Term.letIn ⟨"y", l⟩ (.var "x" l) (.var "free" l) l
    let values := [("x", Value.int 1), ("x", .int 2)]
    let actions := [Action.create, .bind 0 "x" (.value (.bool true))]
    let again := Action.bind 0 "x" (.value (.bool false))
    let later := [.fork 0 values, .evaluate 1 (.buffered 9) t, again]
    (∃ source copy, performAll (actions ++ later) = [source, copy] ∧
      copy.history = [("x", .value (.bool true)), ("x", .value (.int 1)), ("x", .value (.int 2)),
        ("y", .value (.int 2))] ∧
      copy.environment.AnswersBy copy.history ∧ copy.environment.size = 2) ∧
    (∃ copy, performAll (actions ++ [.fork 0 values]) = performAll actions ++ [copy] ∧
      copy.environment.lookup "x" = some (.value (.int 2))) ∧
    (performAll (actions ++ later))[0]? = (performAll (actions ++ [again]))[0]? := by
  intro l t values actions again later
  obtain ⟨hanswers, -, -⟩ := answers_by_history (actions ++ later)
  obtain ⟨-, hfork, halone⟩ := answers_by_history actions
  obtain ⟨copy, hcopy, hlookup⟩ := hfork 0 _ values rfl
  refine ⟨⟨_, _, rfl, rfl, hanswers _ ?_, rfl⟩, ⟨copy, hcopy, hlookup "x"⟩, halone later 0 (by decide)⟩
  exact List.mem_cons_of_mem _ List.mem_cons_self

end Treewalk.Environment

import Mathlib.Algebra.BigOperators.Group.List.Basic
import Mathlib.Algebra.GroupWithZero.Nat
import Mathlib.Logic.Relation
import Treewalk.Proofs.DocumentRoundTrip

/-! The number of nodes of a term: as a loop counts it, along the tree, and in the term's document.

The loop keeps a stack of terms that belong to different subtrees. What it has counted and the nodes of all terms on the
stack always make the same sum, and the nodes on the stack get fewer with every turn, though the stack may grow. -/
namespace Treewalk

namespace Json

mutual

/-- Number of objects with a key in a value, at any depth. -/
def objectsWith (key : String) : Json → Nat
  | .array items => objectsWithIn key items
  | .object fields => (if (get? key fields).isSome then 1 else 0) + objectsWithUnder key fields
  | _ => 0

def objectsWithIn (key : String) : List Json → Nat
  | [] => 0
  | v :: rest => objectsWith key v + objectsWithIn key rest

def objectsWithUnder (key : String) : List (String × Json) → Nat
  | [] => 0
  | (_, v) :: rest => objectsWith key v + objectsWithUnder key rest

end

end Json

theorem Location.objectsWith_toJson (l : Location) : l.toJson.objectsWith "kind" = 0 := rfl

theorem Parameter.objectsWith_toJson (p : Parameter) : p.toJson.objectsWith "kind" = 0 := rfl

namespace Term

theorem sizeAll_eq_sum (ts : List Term) : sizeAll ts = (ts.map size).sum := by
  induction ts with
  | nil => rfl
  | cons t rest ih => rw [sizeAll, ih, List.map_cons, List.sum_cons]

theorem objectsWithIn_parameters (ps : List Parameter) :
    Json.objectsWithIn "kind" (ps.map Parameter.toJson) = 0 := by
  induction ps with
  | nil => rfl
  | cons p rest ih => rw [List.map_cons, Json.objectsWithIn, p.objectsWith_toJson, ih]

theorem objectsWithIn_terms {ts : List Term} (h : ∀ t ∈ ts, t.toJson.objectsWith "kind" = t.size) :
    Json.objectsWithIn "kind" (listToJson ts) = sizeAll ts := by
  induction ts with
  | nil => rfl
  | cons t rest ih =>
    obtain ⟨ht, hrest⟩ := List.forall_mem_cons.1 h
    rw [listToJson, Json.objectsWithIn, ht, ih hrest, sizeAll]

/-- Of all objects in the document of a term, the nodes have a kind, and no others. -/
theorem objectsWith_toJson (t : Term) : t.toJson.objectsWith "kind" = t.size := by
  induction t using childInduction with
  | step t ih =>
    cases t <;>
      simp_all [children, toJson, size, Json.objectsWith, Json.objectsWithUnder, Json.get?, Json.ofInt,
        Location.objectsWith_toJson, Parameter.objectsWith_toJson, objectsWithIn_parameters, objectsWithIn_terms]
    -- Fields stand in key order, which for calls, bindings and conditions is not the order of the children.
    all_goals omega

/-! ### The loop -/

/-- One turn of the loop: the term on top of the stack is counted, and its children take its place. -/
inductive Turn : Nat × List Term → Nat × List Term → Prop
  | visit (count : Nat) (t : Term) (pending : List Term) :
      Turn (count, t :: pending) (count + 1, t.children.reverse ++ pending)

variable {s s' : Nat × List Term}

/-- What is counted is taken from what is pending. -/
theorem Turn.sum_eq (h : Turn s s') : s'.1 + sizeAll s'.2 = s.1 + sizeAll s.2 := by
  cases h with
  | visit count t pending =>
    simp only [sizeAll_append, sizeAll_reverse, sizeAll, size_eq t]
    omega

/-- No run of the loop goes on forever: the stack may grow, but the nodes on it get fewer. -/
theorem wellFounded_turn : WellFounded fun s' s => Turn s s' := by
  refine Subrelation.wf (fun {s' s} h => ?_) (measure fun s : Nat × List Term => sizeAll s.2).wf
  cases h with
  | visit count t pending =>
    have hsum : count + 1 + sizeAll (t.children.reverse ++ pending) = count + sizeAll (t :: pending) :=
      (Turn.visit count t pending).sum_eq
    change sizeAll (t.children.reverse ++ pending) < sizeAll (t :: pending)
    omega

theorem sum_eq_of_turns (h : Relation.ReflTransGen Turn s s') : s'.1 + sizeAll s'.2 = s.1 + sizeAll s.2 := by
  induction h with
  | refl => rfl
  | tail _ hturn ih => exact hturn.sum_eq.trans ih

/-- From everywhere the loop comes to its end. -/
theorem turns_to_end (count : Nat) (pending : List Term) :
    Relation.ReflTransGen Turn (count, pending) (countPending count pending, []) := by
  fun_induction countPending count pending with
  | case1 count => exact .refl
  | case2 count t pending ih => exact .head (.visit count t pending) ih

theorem nodeCount_eq_sum (t : Term) : t.nodeCount = 1 + (t.children.map nodeCount).sum := by
  have hchildren : t.children.map nodeCount = t.children.map size :=
    List.map_congr_left fun child _ => child.nodeCount_eq_size
  rw [nodeCount_eq_size, size_eq, sizeAll_eq_sum, hchildren]

/-- The loop starts with the term alone and does not go on forever. Wherever it stands on its way, it comes to an end
with an empty stack, and then it has counted the nodes: one for the term and those of its children, or as many as there
are objects with a kind in the document of the term. -/
theorem nodeCount_structural (t : Term) :
    Acc (fun s' s => Turn s s') (0, [t]) ∧
    (∀ s, Relation.ReflTransGen Turn (0, [t]) s → Relation.ReflTransGen Turn s (t.nodeCount, [])) ∧
    t.nodeCount = 1 + (t.children.map nodeCount).sum ∧
    t.nodeCount = t.toJson.objectsWith "kind" := by
  refine ⟨wellFounded_turn.apply _, fun s hs => ?_, t.nodeCount_eq_sum, ?_⟩
  · have hend := turns_to_end s.1 s.2
    have hsum : s.1 + sizeAll s.2 = t.size := by simpa [sizeAll] using sum_eq_of_turns hs
    rw [countPending_eq, hsum, ← nodeCount_eq_size] at hend
    exact hend
  · rw [objectsWith_toJson, nodeCount_eq_size]

end Term

end Treewalk

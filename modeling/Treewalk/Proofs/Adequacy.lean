import Treewalk.Proofs.Semantics

/-! Evaluation agrees with the rules, and the height of a derivation is exactly the number of nested nodes
that its run needs.

Completeness goes by recursion on the derivation, soundness by induction on what is left of the limit. -/
namespace Treewalk.Semantics

open Evaluation

theorem isProjectable_iff (t : Term) : isProjectable t = true ↔ t.kind = .tuple ∨ t.kind = .var := by
  cases t <;> simp [isProjectable, Term.kind]

theorem operate_reply (operator : Operator) (a b : Value) (l : Location) (s : State) :
    (match operator.operate a b with
      | .ok v => (pure v : Evaluation Value)
      | .error cause => fail cause l) s = reply (operator.apply a b l) s := by
  unfold Operator.apply
  cases operator.operate a b <;> rfl

theorem Derivation.height_pos {t : Term} {env env' : Environment} {r : Except EvalError Value}
    {out : List String} (d : Derivation t env r env' out) : 0 < d.height := by
  cases d <;> first | exact Nat.one_pos | exact Nat.add_pos_left Nat.one_pos _

theorem le_of_node {a n : Nat} (h : 1 + a ≤ n + 1) : a ≤ n := by omega

theorem le_of_node_left {a b n : Nat} (h : 1 + max a b ≤ n + 1) : a ≤ n := by omega

theorem le_of_node_right {a b n : Nat} (h : 1 + max a b ≤ n + 1) : b ≤ n := by omega

theorem node_le {a n : Nat} (h : a ≤ n) : 1 + a ≤ n + 1 := by omega

section Completeness

variable {limit n : Nat}

/-- Derivations up to a height are what evaluation does, if that much of the limit is left. The run starts
behind lines already printed, so that runs can be put one behind the other. -/
def CompleteUpTo (limit n : Nat) : Prop :=
  ∀ {t : Term} {env env' : Environment} {r : Except EvalError Value} {out : List String}
    (d : Derivation t env r env' out), d.height ≤ n → ∀ s : State, s.depth + n ≤ limit → ∀ xs : List String,
    eval limit t (s.advance env xs) = reply r (s.advance env' (xs ++ out))

theorem Arguments.complete (ih : CompleteUpTo limit n) {ts : List Term} {env env' : Environment}
    {r : Except EvalError (List Value)} {out : List String} (d : Arguments ts env r env' out)
    (hd : d.height ≤ n) (s : State) (hs : s.depth + n ≤ limit) (xs : List String) :
    evalAll (eval limit) ts (s.advance env xs) = reply r (s.advance env' (xs ++ out)) := by
  induction ts generalizing env env' r out xs with
  | nil => cases d with
    | nil => simp [evalAll]
  | cons t rest iht =>
    cases d with
    | cons head tail =>
      simp only [Arguments.height] at hd
      have hhead := ih head (by omega) s hs xs
      have htail := iht tail (by omega)
      simp [evalAll, hhead, htail]
    | headFails head =>
      have hhead := ih head hd s hs xs
      simp [evalAll, hhead]
    | tailFails head tail =>
      simp only [Arguments.height] at hd
      have hhead := ih head (by omega) s hs xs
      have htail := iht tail (by omega)
      simp [evalAll, hhead, htail]

theorem Projection.complete (ih : CompleteUpTo limit n) {half : Half} {operand : Term}
    {env env' : Environment} {r : Except EvalError Value} {out : List String}
    (d : Projection half operand env r env' out) (hd : d.height ≤ n) (s : State)
    (hs : s.depth + n ≤ limit) (xs : List String) :
    project (eval limit) half operand (s.advance env xs) = reply r (s.advance env' (xs ++ out)) := by
  cases d with
  | refused notTuple notVar =>
    have hno : ¬ isProjectable operand = true := by simp [isProjectable_iff, notTuple, notVar]
    simp [project, hno]
  | pair allowed run =>
    have hrun := ih run hd s hs xs
    rw [← isProjectable_iff] at allowed
    cases half <;> simp [project, allowed, hrun, Half.of]
  | @mismatch _ _ _ _ v _ allowed run notPair =>
    have hrun := ih run hd s hs xs
    rw [← isProjectable_iff] at allowed
    cases v <;> first | exact absurd rfl notPair | simp [project, allowed, hrun]
  | fails allowed run =>
    have hrun := ih run hd s hs xs
    rw [← isProjectable_iff] at allowed
    simp [project, allowed, hrun]

theorem Derivation.step_complete (ih : CompleteUpTo limit n) {t : Term} {env env' : Environment}
    {r : Except EvalError Value} {out : List String} (d : Derivation t env r env' out)
    (hd : d.height ≤ n + 1) (s : State) (hs : s.depth + n ≤ limit) (xs : List String) :
    step (eval limit) t (s.advance env xs) = reply r (s.advance env' (xs ++ out)) := by
  cases d with
  | int => simp [step]
  | str => simp [step]
  | bool => simp [step]
  | varValue bound => simp [step, evalVar, bound]
  | varFunction bound body =>
    have hbody := ih body (le_of_node hd) s hs xs
    simp [step, evalVar, bound, hbody]
  | varUnbound free => simp [step, evalVar, free]
  | function run =>
    exact ih run (le_of_node hd) s hs xs
  | callUnbound free => simp [step, callTerm, free]
  | callValue bound => simp [step, callTerm, bound]
  | callOther notVar notFunction => simp [step, callTerm_other notVar notFunction]
  | callArity callable arity =>
    rw [step, callTerm_callable callable]
    simp [call, arity]
  | callArgumentFails callable arity values =>
    have hvalues := values.complete ih (le_of_node hd) s hs xs
    rw [step, callTerm_callable callable]
    simp [call, arity, hvalues]
  | callBody callable arity values body =>
    have hvalues := values.complete ih (le_of_node_left hd) s hs xs
    have hbody := fun xs => inFork_advance (ih body (le_of_node_right hd) s hs xs)
    rw [step, callTerm_callable callable]
    simp [call, arity, hvalues, hbody]
  | letFunction rest =>
    have hrest := ih rest (le_of_node hd) s hs xs
    simp [step, evalBinding, hrest]
  | letValue notFunction head rest =>
    have hhead := ih head (le_of_node_left hd) s hs xs
    have hrest := ih rest (le_of_node_right hd) s hs
    simp [step, evalBinding_other notFunction, hhead, hrest]
  | letFails notFunction head =>
    have hhead := ih head (le_of_node hd) s hs xs
    simp [step, evalBinding_other notFunction, hhead]
  | condTrue test branch =>
    have htest := ih test (le_of_node_left hd) s hs xs
    have hbranch := ih branch (le_of_node_right hd) s hs
    simp [step, htest, hbranch]
  | condFalse test branch =>
    have htest := ih test (le_of_node_left hd) s hs xs
    have hbranch := ih branch (le_of_node_right hd) s hs
    simp [step, htest, hbranch]
  | @condMismatch _ _ _ _ _ _ v _ test notBool =>
    have htest := ih test (le_of_node hd) s hs xs
    cases v <;> first | exact absurd rfl notBool | simp [step, htest]
  | condFails test =>
    have htest := ih test (le_of_node hd) s hs xs
    simp [step, htest]
  | binary first second =>
    have hfirst := ih first (le_of_node_left hd) s hs xs
    have hsecond := ih second (le_of_node_right hd) s hs
    simp only [step, bind_run, hfirst, hsecond, reply_ok, List.append_assoc]
    exact operate_reply ..
  | binaryLeftFails first =>
    have hfirst := ih first (le_of_node hd) s hs xs
    simp [step, hfirst]
  | binaryRightFails first second =>
    have hfirst := ih first (le_of_node_left hd) s hs xs
    have hsecond := ih second (le_of_node_right hd) s hs
    simp [step, hfirst, hsecond]
  | tuple first second =>
    have hfirst := ih first (le_of_node_left hd) s hs xs
    have hsecond := ih second (le_of_node_right hd) s hs
    simp [step, hfirst, hsecond]
  | tupleFirstFails first =>
    have hfirst := ih first (le_of_node hd) s hs xs
    simp [step, hfirst]
  | tupleSecondFails first second =>
    have hfirst := ih first (le_of_node_left hd) s hs xs
    have hsecond := ih second (le_of_node_right hd) s hs
    simp [step, hfirst, hsecond]
  | first half =>
    exact half.complete ih (le_of_node hd) s hs xs
  | second half =>
    exact half.complete ih (le_of_node hd) s hs xs
  | print run =>
    have hrun := ih run (le_of_node hd) s hs xs
    simp [step, hrun]
  | printFails run =>
    have hrun := ih run (le_of_node hd) s hs xs
    simp [step, hrun]

theorem completeUpTo (limit n : Nat) : CompleteUpTo limit n := by
  induction n with
  | zero =>
    intro t env env' r out d hd
    have hpos := d.height_pos
    omega
  | succ n ih =>
    intro t env env' r out d hd s hs xs
    rw [eval_eq]
    refine nested_advance (by omega) (d.step_complete ih hd _ ?_ xs)
    change s.depth + 1 + n ≤ limit
    omega

end Completeness

section Soundness

variable {limit n : Nat} {s : State} {env : Environment} {xs : List String}

/-- A derivation of at most the given height accounts for what a run did, or the limit ended the run. -/
def Explained (limit n : Nat) (t : Term) (env : Environment) (s : State) (xs : List String)
    (result : EStateM.Result EvalError State Value) : Prop :=
  (∃ r env' out, ∃ d : Derivation t env r env' out, d.height ≤ n ∧
    result = reply r (s.advance env' (xs ++ out))) ∨
  ∃ l s', result = .error ⟨.depthExceeded limit, l⟩ s'

/-- Every run with at most so much of the limit left is explained. -/
def SoundUpTo (limit n : Nat) : Prop :=
  ∀ s : State, limit ≤ s.depth + n → ∀ (t : Term) (env : Environment) (xs : List String),
    Explained limit n t env s xs (eval limit t (s.advance env xs))

theorem evalAll_sound (ih : SoundUpTo limit n) (hs : limit ≤ s.depth + n) (ts : List Term)
    (env : Environment) (xs : List String) :
    (∃ r env' out, ∃ d : Arguments ts env r env' out, d.height ≤ n ∧
      evalAll (eval limit) ts (s.advance env xs) = reply r (s.advance env' (xs ++ out))) ∨
    ∃ l s', evalAll (eval limit) ts (s.advance env xs) = .error ⟨.depthExceeded limit, l⟩ s' := by
  induction ts generalizing env xs with
  | nil => exact .inl ⟨_, _, _, .nil env, Nat.zero_le n, by simp [evalAll]⟩
  | cons t rest iht =>
    rcases ih s hs t env xs with ⟨r, env₁, out₁, d, hd, hrun⟩ | ⟨l, s', hrun⟩
    · cases r with
      | error e => exact .inl ⟨_, _, _, .headFails d, hd, by simp [evalAll, hrun]⟩
      | ok v =>
        rcases iht env₁ (xs ++ out₁) with ⟨r, env₂, out₂, d', hd', hrun'⟩ | ⟨l, s', hrun'⟩
        · cases r with
          | error e =>
            refine .inl ⟨_, _, _, .tailFails d d', Nat.max_le.2 ⟨hd, hd'⟩, ?_⟩
            simp [evalAll, hrun, hrun']
          | ok vs =>
            refine .inl ⟨_, _, _, .cons d d', Nat.max_le.2 ⟨hd, hd'⟩, ?_⟩
            simp [evalAll, hrun, hrun']
        · exact .inr ⟨l, s', by simp [evalAll, hrun, hrun']⟩
    · exact .inr ⟨l, s', by simp [evalAll, hrun]⟩

theorem project_sound (ih : SoundUpTo limit n) (hs : limit ≤ s.depth + n) (half : Half) (operand : Term) :
    (∃ r env' out, ∃ d : Projection half operand env r env' out, d.height ≤ n ∧
      project (eval limit) half operand (s.advance env xs) = reply r (s.advance env' (xs ++ out))) ∨
    ∃ l s', project (eval limit) half operand (s.advance env xs) = .error ⟨.depthExceeded limit, l⟩ s' := by
  by_cases hp : isProjectable operand = true
  · have allowed := (isProjectable_iff operand).1 hp
    rcases ih s hs operand env xs with ⟨r, env₁, out₁, d, hd, hrun⟩ | ⟨l, s', hrun⟩
    · cases r with
      | error e => exact .inl ⟨_, _, _, .fails allowed d, hd, by simp [project, hp, hrun]⟩
      | ok v =>
        cases v with
        | tuple a b =>
          exact .inl ⟨_, _, _, .pair allowed d, hd, by cases half <;> simp [project, hp, hrun, Half.of]⟩
        | _ =>
          refine .inl ⟨_, _, _, .mismatch allowed d ?_, ?_, ?_⟩
          · intro h
            cases h
          · exact hd
          · simp [project, hp, hrun]
    · exact .inr ⟨l, s', by simp [project, hp, hrun]⟩
  · have hkind := hp
    rw [isProjectable_iff, not_or] at hkind
    exact .inl ⟨_, _, _, .refused hkind.1 hkind.2, Nat.zero_le n, by simp [project, hp]⟩

theorem call_sound (ih : SoundUpTo limit n) (hs : limit ≤ s.depth + n) {callee : Term} {f : Function}
    (callable : Callable env callee f) (arguments : List Term) (l : Location) :
    Explained limit (n + 1) (.call callee arguments l) env s xs
      (call (eval limit) f arguments l (s.advance env xs)) := by
  by_cases arity : f.arity = arguments.length
  · rcases evalAll_sound ih hs arguments env xs with ⟨r, env₁, out₁, d, hd, hrun⟩ | ⟨l', s', hrun⟩
    · cases r with
      | error e =>
        exact .inl ⟨_, _, _, .callArgumentFails callable arity d, node_le hd, by simp [call, arity, hrun]⟩
      | ok vs =>
        rcases ih s hs f.body (bodyScope env₁ f vs) (xs ++ out₁) with
          ⟨r, env₂, out₂, d', hd', hrun'⟩ | ⟨l', s', hrun'⟩
        · have hfork := inFork_advance hrun'
          refine .inl ⟨_, _, _, .callBody callable arity d d', node_le (Nat.max_le.2 ⟨hd, hd'⟩), ?_⟩
          simp [call, arity, hrun, hfork]
        · have hfork := inFork_error hrun'
          exact .inr ⟨l', { s' with environment := env₁ }, by simp [call, arity, hrun, hfork]⟩
    · exact .inr ⟨l', s', by simp [call, arity, hrun]⟩
  · exact .inl ⟨_, _, _, .callArity callable arity, node_le (Nat.zero_le n), by simp [call, arity]⟩

theorem callTerm_sound (ih : SoundUpTo limit n) (hs : limit ≤ s.depth + n) (callee : Term)
    (arguments : List Term) (l : Location) :
    Explained limit (n + 1) (.call callee arguments l) env s xs
      (callTerm (eval limit) callee arguments l (s.advance env xs)) := by
  cases callee with
  | var name place =>
    cases hb : env.lookup name with
    | none => exact .inl ⟨_, _, _, .callUnbound hb, node_le (Nat.zero_le n), by simp [callTerm, hb]⟩
    | some binding =>
      cases binding with
      | value v => exact .inl ⟨_, _, _, .callValue hb, node_le (Nat.zero_le n), by simp [callTerm, hb]⟩
      | function f =>
        have hc : Callable env (.var name place) f := .named hb
        rw [callTerm_callable (by exact hc)]
        exact call_sound ih hs hc arguments l
  | function parameters body place =>
    have hc : Callable env (.function parameters body place) ⟨parameters, body⟩ := .literal
    exact call_sound ih hs hc arguments l
  | _ =>
    refine .inl ⟨_, _, _, .callOther ?_ ?_, ?_, ?_⟩
    · intro h
      cases h
    · intro h
      cases h
    · exact node_le (Nat.zero_le n)
    · simp [callTerm]

theorem letIn_sound (ih : SoundUpTo limit n) (hs : limit ≤ s.depth + n) (name : Parameter) (value next : Term)
    (l : Location) :
    Explained limit (n + 1) (.letIn name value next l) env s xs
      (step (eval limit) (.letIn name value next l) (s.advance env xs)) := by
  by_cases hf : value.kind = .function
  · cases value with
    | function parameters body place =>
      rcases ih s hs next (env.bind name.name (.function ⟨parameters, body⟩)) xs with
        ⟨r, env₁, out₁, d, hd, hrun⟩ | ⟨l', s', hrun⟩
      · exact .inl ⟨_, _, _, .letFunction d, node_le hd, by simp [step, evalBinding, hrun]⟩
      · exact .inr ⟨l', s', by simp [step, evalBinding, hrun]⟩
    | _ => cases hf
  · rcases ih s hs value env xs with ⟨r, env₁, out₁, d, hd, hrun⟩ | ⟨l', s', hrun⟩
    · cases r with
      | error e =>
        exact .inl ⟨_, _, _, .letFails hf d, node_le hd, by simp [step, evalBinding_other hf, hrun]⟩
      | ok v =>
        rcases ih s hs next (env₁.bind name.name (.value v)) (xs ++ out₁) with
          ⟨r, env₂, out₂, d', hd', hrun'⟩ | ⟨l', s', hrun'⟩
        · refine .inl ⟨_, _, _, .letValue hf d d', node_le (Nat.max_le.2 ⟨hd, hd'⟩), ?_⟩
          simp [step, evalBinding_other hf, hrun, hrun']
        · exact .inr ⟨l', s', by simp [step, evalBinding_other hf, hrun, hrun']⟩
    · exact .inr ⟨l', s', by simp [step, evalBinding_other hf, hrun]⟩

theorem cond_sound (ih : SoundUpTo limit n) (hs : limit ≤ s.depth + n) (condition whenTrue whenFalse : Term)
    (l : Location) :
    Explained limit (n + 1) (.cond condition whenTrue whenFalse l) env s xs
      (step (eval limit) (.cond condition whenTrue whenFalse l) (s.advance env xs)) := by
  rcases ih s hs condition env xs with ⟨r, env₁, out₁, d, hd, hrun⟩ | ⟨l', s', hrun⟩
  · cases r with
    | error e => exact .inl ⟨_, _, _, .condFails d, node_le hd, by simp [step, hrun]⟩
    | ok v =>
      cases v with
      | bool b =>
        cases b with
        | true =>
          rcases ih s hs whenTrue env₁ (xs ++ out₁) with ⟨r, env₂, out₂, d', hd', hrun'⟩ | ⟨l', s', hrun'⟩
          · refine .inl ⟨_, _, _, .condTrue d d', node_le (Nat.max_le.2 ⟨hd, hd'⟩), ?_⟩
            simp [step, hrun, hrun']
          · exact .inr ⟨l', s', by simp [step, hrun, hrun']⟩
        | false =>
          rcases ih s hs whenFalse env₁ (xs ++ out₁) with ⟨r, env₂, out₂, d', hd', hrun'⟩ | ⟨l', s', hrun'⟩
          · refine .inl ⟨_, _, _, .condFalse d d', node_le (Nat.max_le.2 ⟨hd, hd'⟩), ?_⟩
            simp [step, hrun, hrun']
          · exact .inr ⟨l', s', by simp [step, hrun, hrun']⟩
      | _ =>
        refine .inl ⟨_, _, _, .condMismatch d ?_, ?_, ?_⟩
        · intro h
          cases h
        · exact node_le hd
        · simp [step, hrun]
  · exact .inr ⟨l', s', by simp [step, hrun]⟩

theorem binary_sound (ih : SoundUpTo limit n) (hs : limit ≤ s.depth + n) (operator : Operator)
    (left right : Term) (l : Location) :
    Explained limit (n + 1) (.binary operator left right l) env s xs
      (step (eval limit) (.binary operator left right l) (s.advance env xs)) := by
  rcases ih s hs left env xs with ⟨r, env₁, out₁, d, hd, hrun⟩ | ⟨l', s', hrun⟩
  · cases r with
    | error e => exact .inl ⟨_, _, _, .binaryLeftFails d, node_le hd, by simp [step, hrun]⟩
    | ok a =>
      rcases ih s hs right env₁ (xs ++ out₁) with ⟨r, env₂, out₂, d', hd', hrun'⟩ | ⟨l', s', hrun'⟩
      · cases r with
        | error e =>
          refine .inl ⟨_, _, _, .binaryRightFails d d', node_le (Nat.max_le.2 ⟨hd, hd'⟩), ?_⟩
          simp [step, hrun, hrun']
        | ok b =>
          refine .inl ⟨_, _, _, .binary d d', node_le (Nat.max_le.2 ⟨hd, hd'⟩), ?_⟩
          simp only [step, bind_run, hrun, hrun', reply_ok, List.append_assoc]
          exact operate_reply ..
      · exact .inr ⟨l', s', by simp [step, hrun, hrun']⟩
  · exact .inr ⟨l', s', by simp [step, hrun]⟩

theorem tuple_sound (ih : SoundUpTo limit n) (hs : limit ≤ s.depth + n) (left right : Term) (l : Location) :
    Explained limit (n + 1) (.tuple left right l) env s xs
      (step (eval limit) (.tuple left right l) (s.advance env xs)) := by
  rcases ih s hs left env xs with ⟨r, env₁, out₁, d, hd, hrun⟩ | ⟨l', s', hrun⟩
  · cases r with
    | error e => exact .inl ⟨_, _, _, .tupleFirstFails d, node_le hd, by simp [step, hrun]⟩
    | ok a =>
      rcases ih s hs right env₁ (xs ++ out₁) with ⟨r, env₂, out₂, d', hd', hrun'⟩ | ⟨l', s', hrun'⟩
      · cases r with
        | error e =>
          refine .inl ⟨_, _, _, .tupleSecondFails d d', node_le (Nat.max_le.2 ⟨hd, hd'⟩), ?_⟩
          simp [step, hrun, hrun']
        | ok b =>
          refine .inl ⟨_, _, _, .tuple d d', node_le (Nat.max_le.2 ⟨hd, hd'⟩), ?_⟩
          simp [step, hrun, hrun']
      · exact .inr ⟨l', s', by simp [step, hrun, hrun']⟩
  · exact .inr ⟨l', s', by simp [step, hrun]⟩

theorem step_sound (ih : SoundUpTo limit n) (hs : limit ≤ s.depth + n) (t : Term) :
    Explained limit (n + 1) t env s xs (step (eval limit) t (s.advance env xs)) := by
  cases t with
  | int v l => exact .inl ⟨_, _, _, .int v l env, node_le (Nat.zero_le n), by simp [step]⟩
  | str v l => exact .inl ⟨_, _, _, .str v l env, node_le (Nat.zero_le n), by simp [step]⟩
  | bool v l => exact .inl ⟨_, _, _, .bool v l env, node_le (Nat.zero_le n), by simp [step]⟩
  | var name l =>
    cases hb : env.lookup name with
    | none => exact .inl ⟨_, _, _, .varUnbound hb, node_le (Nat.zero_le n), by simp [step, evalVar, hb]⟩
    | some binding =>
      cases binding with
      | value v => exact .inl ⟨_, _, _, .varValue hb, node_le (Nat.zero_le n), by simp [step, evalVar, hb]⟩
      | function f =>
        rcases ih s hs f.body env xs with ⟨r, env₁, out₁, d, hd, hrun⟩ | ⟨l', s', hrun⟩
        · exact .inl ⟨_, _, _, .varFunction hb d, node_le hd, by simp [step, evalVar, hb, hrun]⟩
        · exact .inr ⟨l', s', by simp [step, evalVar, hb, hrun]⟩
  | function parameters body l =>
    rcases ih s hs body env xs with ⟨r, env₁, out₁, d, hd, hrun⟩ | ⟨l', s', hrun⟩
    · exact .inl ⟨_, _, _, .function d, node_le hd, by simp [step, hrun]⟩
    · exact .inr ⟨l', s', by simp [step, hrun]⟩
  | call callee arguments l => exact callTerm_sound ih hs callee arguments l
  | letIn name value next l => exact letIn_sound ih hs name value next l
  | cond condition whenTrue whenFalse l => exact cond_sound ih hs condition whenTrue whenFalse l
  | binary operator left right l => exact binary_sound ih hs operator left right l
  | tuple left right l => exact tuple_sound ih hs left right l
  | first operand l =>
    rcases project_sound ih hs .first operand with ⟨r, env₁, out₁, d, hd, hrun⟩ | ⟨l', s', hrun⟩
    · exact .inl ⟨_, _, _, .first d, node_le hd, hrun⟩
    · exact .inr ⟨l', s', hrun⟩
  | second operand l =>
    rcases project_sound ih hs .second operand with ⟨r, env₁, out₁, d, hd, hrun⟩ | ⟨l', s', hrun⟩
    · exact .inl ⟨_, _, _, .second d, node_le hd, hrun⟩
    · exact .inr ⟨l', s', hrun⟩
  | print operand l =>
    rcases ih s hs operand env xs with ⟨r, env₁, out₁, d, hd, hrun⟩ | ⟨l', s', hrun⟩
    · cases r with
      | error e => exact .inl ⟨_, _, _, .printFails d, node_le hd, by simp [step, hrun]⟩
      | ok v => exact .inl ⟨_, _, _, .print d, node_le hd, by simp [step, hrun]⟩
    · exact .inr ⟨l', s', by simp [step, hrun]⟩

theorem nested_sound {t : Term} {location : Location} {m : Evaluation Value}
    (h : s.depth < limit → Explained limit n t env { s with depth := s.depth + 1 } xs
      (m (State.advance { s with depth := s.depth + 1 } env xs))) :
    Explained limit n t env s xs (nested limit location m (s.advance env xs)) := by
  by_cases hd : s.depth < limit
  · rcases h hd with ⟨r, env₁, out₁, d, hheight, hrun⟩ | ⟨l, s', hrun⟩
    · exact .inl ⟨r, env₁, out₁, d, hheight, nested_advance hd hrun⟩
    · simp only [State.advance] at hrun
      exact .inr ⟨l, { s' with depth := s'.depth - 1 }, by simp [nested, hd, State.advance, hrun]⟩
  · exact .inr ⟨location, s.advance env xs, by simp [nested, hd]⟩

theorem soundUpTo (limit n : Nat) : SoundUpTo limit n := by
  induction n with
  | zero =>
    intro s hs t env xs
    rw [eval_eq]
    refine nested_sound fun hd => ?_
    omega
  | succ n ih =>
    intro s hs t env xs
    rw [eval_eq]
    refine nested_sound fun hd => step_sound ih ?_ t
    change limit ≤ s.depth + 1 + n
    omega

end Soundness

def OutOfDepth {α : Type} (r : Except EvalError α) : Prop := ∃ limit l, r = .error ⟨.depthExceeded limit, l⟩

theorem operate_error {operator : Operator} {a b : Value} {cause : Cause}
    (h : operator.operate a b = .error cause) (limit : Nat) : cause ≠ .depthExceeded limit := by
  rintro rfl
  rcases Operator.operate_error h with h | h <;> cases h

theorem apply_within (operator : Operator) (a b : Value) (l : Location) :
    ¬ OutOfDepth (operator.apply a b l) := by
  rintro ⟨limit, l', h⟩
  unfold Operator.apply at h
  cases ho : operator.operate a b with
  | ok v =>
    rw [ho] at h
    cases h
  | error cause =>
    rw [ho] at h
    exact operate_error ho limit (EvalError.mk.inj (Except.error.inj h)).1

mutual

theorem Derivation.within {t : Term} {env env' : Environment} {r : Except EvalError Value} {out : List String} :
    Derivation t env r env' out → ¬ OutOfDepth r
  | .int .. => by simp [OutOfDepth]
  | .str .. => by simp [OutOfDepth]
  | .bool .. => by simp [OutOfDepth]
  | .varValue _ => by simp [OutOfDepth]
  | .varFunction _ body => body.within
  | .varUnbound _ => by simp [OutOfDepth]
  | .function run => run.within
  | .callUnbound _ => by simp [OutOfDepth]
  | .callValue _ => by simp [OutOfDepth]
  | .callOther _ _ => by simp [OutOfDepth]
  | .callArity _ _ => by simp [OutOfDepth]
  | .callArgumentFails _ _ values => by simpa [OutOfDepth] using values.within
  | .callBody _ _ _ body => body.within
  | .letFunction rest => rest.within
  | .letValue _ _ rest => rest.within
  | .letFails _ head => head.within
  | .condTrue _ branch => branch.within
  | .condFalse _ branch => branch.within
  | .condMismatch _ _ => by simp [OutOfDepth]
  | .condFails test => test.within
  | .binary _ _ => apply_within _ _ _ _
  | .binaryLeftFails first => first.within
  | .binaryRightFails _ second => second.within
  | .tuple _ _ => by simp [OutOfDepth]
  | .tupleFirstFails first => first.within
  | .tupleSecondFails _ second => second.within
  | .first half => half.within
  | .second half => half.within
  | .print _ => by simp [OutOfDepth]
  | .printFails run => run.within

theorem Projection.within {half : Half} {t : Term} {env env' : Environment} {r : Except EvalError Value}
    {out : List String} : Projection half t env r env' out → ¬ OutOfDepth r
  | .refused _ _ => by simp [OutOfDepth]
  | .pair _ _ => by simp [OutOfDepth]
  | .mismatch _ _ _ => by simp [OutOfDepth]
  | .fails _ run => run.within

theorem Arguments.within {ts : List Term} {env env' : Environment} {r : Except EvalError (List Value)}
    {out : List String} : Arguments ts env r env' out → ¬ OutOfDepth r
  | .nil _ => by simp [OutOfDepth]
  | .cons _ _ => by simp [OutOfDepth]
  | .headFails head => by simpa [OutOfDepth] using head.within
  | .tailFails _ tail => tail.within

end

theorem Derivation.evaluate_eq {e : Evaluator} {t : Term} {env env' : Environment} {r : Except EvalError Value}
    {out : List String} (d : Derivation t env r env' out) (hd : e.depth + d.height ≤ e.limit) :
    e.evaluate t env = (r, env', { e with printer := e.printer.printAll out }) := by
  have hrun := completeUpTo e.limit d.height d (Nat.le_refl _) ⟨env, e.printer, e.depth⟩ hd []
  exact Evaluator.evaluate_reply hrun

theorem evaluate_explained (e : Evaluator) (t : Term) (env : Environment) :
    (∃ r env' out, ∃ d : Derivation t env r env' out, e.depth + d.height ≤ e.limit ∧
      e.evaluate t env = (r, env', { e with printer := e.printer.printAll out })) ∨
    ∃ l, (e.evaluate t env).1 = .error ⟨.depthExceeded e.limit, l⟩ := by
  have hleft : e.limit ≤ e.depth + (e.limit - e.depth) := by omega
  rcases soundUpTo e.limit (e.limit - e.depth) ⟨env, e.printer, e.depth⟩ hleft t env [] with
    ⟨r, env', out, d, hd, _⟩ | ⟨l, s', hrun⟩
  · have hpos := d.height_pos
    have hheight : e.depth + d.height ≤ e.limit := by omega
    exact .inl ⟨r, env', out, d, hheight, d.evaluate_eq hheight⟩
  · have hresult := Evaluator.evaluate_reply (r := .error ⟨.depthExceeded e.limit, l⟩) hrun
    exact .inr ⟨l, by rw [hresult]⟩

/-- Evaluation returns a result other than running out of depth if and only if a derivation of that result
fits into what is left of the limit; the environment left and the lines printed are the derivation's. It runs
out of depth if and only if no derivation fits. -/
theorem evaluate_iff_derivation (e : Evaluator) (t : Term) (env : Environment) :
    (∀ r env' e', (e.evaluate t env = (r, env', e') ∧ ¬ OutOfDepth r) ↔
      ∃ out, (∃ d : Derivation t env r env' out, e.depth + d.height ≤ e.limit) ∧
        e' = { e with printer := e.printer.printAll out }) ∧
    ((∃ l, (e.evaluate t env).1 = .error ⟨.depthExceeded e.limit, l⟩) ↔
      ∀ r env' out, ∀ d : Derivation t env r env' out, e.limit < e.depth + d.height) := by
  refine ⟨fun r env' e' => ⟨?_, ?_⟩, ?_, ?_⟩
  · rintro ⟨hrun, hr⟩
    rcases evaluate_explained e t env with ⟨r₁, env₁, out, d, hd, hrun₁⟩ | ⟨l, hdepth⟩
    · rw [hrun, Prod.mk.injEq, Prod.mk.injEq] at hrun₁
      obtain ⟨rfl, rfl, rfl⟩ := hrun₁
      exact ⟨out, ⟨d, hd⟩, rfl⟩
    · rw [hrun] at hdepth
      exact absurd ⟨_, l, hdepth⟩ hr
  · rintro ⟨out, ⟨d, hd⟩, rfl⟩
    exact ⟨d.evaluate_eq hd, d.within⟩
  · rintro ⟨l, hdepth⟩ r env' out d
    refine Nat.lt_of_not_le fun hfits => ?_
    have hrun := d.evaluate_eq hfits
    rw [hrun] at hdepth
    exact d.within ⟨_, l, hdepth⟩
  · intro hall
    rcases evaluate_explained e t env with ⟨r, env', out, d, hd, _⟩ | hdepth
    · have hlarge := hall r env' out d
      omega
    · exact hdepth

end Treewalk.Semantics

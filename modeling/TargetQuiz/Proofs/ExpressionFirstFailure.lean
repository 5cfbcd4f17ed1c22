import TargetQuiz.Proofs.ExpressionPostorder

/-! The last token of a postorder is the root, and what stands before it splits in one way only. So
tokens are the postorder of one tree at most, and an error is that of its first failing subtree. -/
namespace TargetQuiz.Expression
namespace Tree

theorem append_postorder_inj {t u : Tree} {front front' : List Token}
    (h : front ++ t.postorder = front' ++ u.postorder) : front = front' ∧ t = u := by
  induction t generalizing u front front' with
  | leaf o =>
    cases u with
    | leaf o' => simpa [postorder] using h
    | node op left right => simp [postorder, ← List.append_assoc] at h
  | node op left right ihl ihr =>
    cases u with
    | leaf o' => simp [postorder, ← List.append_assoc] at h
    | node op' left' right' =>
      simp only [postorder, ← List.append_assoc, List.append_singleton_inj,
        Token.operator.injEq] at h
      obtain ⟨hoperands, rfl⟩ := h
      obtain ⟨hleft, rfl⟩ := ihr hoperands
      obtain ⟨rfl, rfl⟩ := ihl hleft
      exact ⟨rfl, rfl⟩

theorem postorder_injective : Function.Injective postorder := by
  intro t u h
  have hfront : [] ++ t.postorder = [] ++ u.postorder := h
  exact (append_postorder_inj hfront).2

def root : Tree → Token
  | leaf o => .operand o
  | node op _ _ => .operator op

def subtrees : Tree → List Tree
  | leaf o => [leaf o]
  | node op left right => left.subtrees ++ right.subtrees ++ [node op left right]

theorem map_root_subtrees (t : Tree) : t.subtrees.map root = t.postorder := by
  induction t with
  | leaf o => rfl
  | node op left right ihl ihr => simp [subtrees, postorder, root, ihl, ihr]

inductive HasValue : Tree → Fraction → Prop
  | leaf {o : Operand} {value : Fraction} (h : o.value = .ok value) : HasValue (.leaf o) value
  | node {op : Operator} {left right : Tree} {a b value : Fraction} (hl : HasValue left a)
      (hr : HasValue right b) (h : op.apply a b = .ok value) : HasValue (.node op left right) value

/-- The operand has no value, or the operator has no result on the values of its operands. -/
inductive Fails : Tree → EvalError → Prop
  | leaf {o : Operand} {e : EvalError} (h : o.value = .error e) : Fails (.leaf o) e
  | node {op : Operator} {left right : Tree} {a b : Fraction} {cause : ArithmeticError}
      (hl : HasValue left a) (hr : HasValue right b) (h : op.apply a b = .error cause) :
      Fails (.node op left right) (.ofArithmetic cause)

/-- The error of the first subtree that fails; those before it have values. -/
def FirstFailure (t : Tree) (e : EvalError) : Prop :=
  ∃ before s after, t.subtrees = before ++ s :: after ∧
    (∀ u ∈ before, ∃ value, HasValue u value) ∧ Fails s e

theorem hasValue_iff {t : Tree} {value : Fraction} : HasValue t value ↔ t.eval = .ok value := by
  induction t generalizing value with
  | leaf o =>
    constructor
    · rintro ⟨h⟩
      exact h
    · exact .leaf
  | node op left right ihl ihr =>
    simp only [eval, bind_eq_ok_iff, mapError_eq_ok_iff, ← ihl, ← ihr]
    constructor
    · rintro (_ | ⟨hl, hr, h⟩)
      exact ⟨_, hl, _, hr, h⟩
    · rintro ⟨a, hl, b, hr, h⟩
      exact .node hl hr h

theorem fails_node_iff {op : Operator} {left right : Tree} {e : EvalError} :
    Fails (.node op left right) e ↔ ∃ a b, left.eval = .ok a ∧ right.eval = .ok b ∧
      (op.apply a b).mapError EvalError.ofArithmetic = .error e := by
  simp only [← hasValue_iff, mapError_eq_error_iff]
  constructor
  · rintro (_ | ⟨hl, hr, h⟩)
    exact ⟨_, _, hl, hr, _, h, rfl⟩
  · rintro ⟨a, b, hl, hr, cause, h, rfl⟩
    exact .node hl hr h

theorem Fails.eval_eq {t : Tree} {e : EvalError} (h : Fails t e) : t.eval = .error e := by
  cases t with
  | leaf o =>
    cases h with
    | leaf h => exact h
  | node op left right =>
    obtain ⟨a, b, hl, hr, happly⟩ := fails_node_iff.1 h
    simp [eval, bind_eq_error_iff, hl, hr, happly]

theorem exists_hasValue_of_mem {t s : Tree} {value : Fraction} (h : HasValue t value)
    (hs : s ∈ t.subtrees) : ∃ a, HasValue s a := by
  induction h with
  | leaf h =>
    rw [subtrees, List.mem_singleton] at hs
    exact ⟨_, hs ▸ HasValue.leaf h⟩
  | node hl hr h ihl ihr =>
    simp only [subtrees, List.mem_append, List.mem_singleton] at hs
    rcases hs with (hs | hs) | rfl
    · exact ihl hs
    · exact ihr hs
    · exact ⟨_, .node hl hr h⟩

/-- A failing tree has a first failure: in the left operand, else in the right one, else at the
root. -/
theorem firstFailure_of_eval {t : Tree} {e : EvalError} (h : t.eval = .error e) :
    FirstFailure t e := by
  induction t with
  | leaf o => exact ⟨[], .leaf o, [], rfl, by simp, .leaf h⟩
  | node op left right ihl ihr =>
    rw [eval, bind_eq_error_iff] at h
    rcases h with hleft | ⟨a, hleft, h⟩
    · obtain ⟨before, s, after, hsplit, hbefore, hs⟩ := ihl hleft
      exact ⟨before, s, after ++ right.subtrees ++ [node op left right], by simp [subtrees, hsplit],
        hbefore, hs⟩
    have hvalued : ∀ u ∈ left.subtrees, ∃ value, HasValue u value := fun u hu =>
      exists_hasValue_of_mem (hasValue_iff.2 hleft) hu
    rw [bind_eq_error_iff] at h
    rcases h with hright | ⟨b, hright, happly⟩
    · obtain ⟨before, s, after, hsplit, hbefore, hs⟩ := ihr hright
      refine ⟨left.subtrees ++ before, s, after ++ [node op left right], by simp [subtrees, hsplit],
        fun u hu => ?_, hs⟩
      exact (List.mem_append.1 hu).elim (hvalued u) (hbefore u)
    · refine ⟨left.subtrees ++ right.subtrees, node op left right, [], rfl, fun u hu => ?_, ?_⟩
      · rcases List.mem_append.1 hu with hu | hu
        · exact hvalued u hu
        · exact exists_hasValue_of_mem (hasValue_iff.2 hright) hu
      · exact fails_node_iff.2 ⟨a, b, hleft, hright, happly⟩

theorem Fails.not_hasValue {t : Tree} {e : EvalError} {value : Fraction} (h : Fails t e) :
    ¬HasValue t value := by
  rw [hasValue_iff, h.eval_eq]
  exact nofun

/-- A first failure is what a search for a subtree without a value finds. -/
theorem find?_subtrees {t s : Tree} {before after : List Tree} {e : EvalError}
    (hsplit : t.subtrees = before ++ s :: after)
    (hbefore : ∀ u ∈ before, ∃ value, HasValue u value) (hs : Fails s e) :
    t.subtrees.find? (fun u => !u.eval.isOk) = some s := by
  refine List.find?_eq_some_iff_append.2 ⟨?_, before, after, hsplit, fun u hu => ?_⟩
  · rw [hs.eval_eq]
    rfl
  · obtain ⟨value, hvalue⟩ := hbefore u hu
    rw [hasValue_iff.1 hvalue]
    rfl

theorem FirstFailure.unique {t : Tree} {e e' : EvalError} (h : FirstFailure t e)
    (h' : FirstFailure t e') : e = e' := by
  obtain ⟨before, s, after, hsplit, hbefore, hs⟩ := h
  obtain ⟨before', s', after', hsplit', hbefore', hs'⟩ := h'
  have hsame := find?_subtrees hsplit hbefore hs
  rw [find?_subtrees hsplit' hbefore' hs', Option.some.injEq] at hsame
  subst hsame
  exact Except.error.inj (hs.eval_eq.symm.trans hs'.eval_eq)

theorem eval_eq_error_iff {t : Tree} {e : EvalError} : t.eval = .error e ↔ FirstFailure t e := by
  refine ⟨firstFailure_of_eval, fun h => ?_⟩
  cases heval : t.eval with
  | error e' => rw [h.unique (firstFailure_of_eval heval)]
  | ok value =>
    obtain ⟨before, s, after, hsplit, -, hs⟩ := h
    obtain ⟨a, ha⟩ := exists_hasValue_of_mem (s := s) (hasValue_iff.2 heval) (by simp [hsplit])
    exact absurd ha hs.not_hasValue

end Tree

theorem evalPostorder_eq_ok_iff_hasValue {tokens : List Token} {value : Fraction} :
    evalPostorder tokens = .ok value ↔
      ∃ t : Tree, (∀ u : Tree, u.postorder = tokens ↔ u = t) ∧ t.HasValue value := by
  rw [evalPostorder_eq_ok_iff]
  constructor
  · rintro ⟨t, rfl, hvalue⟩
    exact ⟨t, fun u => Tree.postorder_injective.eq_iff, Tree.hasValue_iff.2 hvalue⟩
  · rintro ⟨t, hunique, hvalue⟩
    exact ⟨t, ((hunique t).2 rfl).symm, Tree.hasValue_iff.1 hvalue⟩

/-- Any tokens have a value exactly when they are the postorder of a tree with that value, and
there is no other tree of which they are the postorder. The postorder of a tree without a value has
the error of the first subtree that fails, where the subtrees come in the order of their tokens. -/
theorem evalPostorder_unique_reading :
    (∀ tokens value, evalPostorder tokens = .ok value ↔
      ∃ t : Tree, (∀ u : Tree, u.postorder = tokens ↔ u = t) ∧ t.HasValue value) ∧
      (∀ (t : Tree) (e : EvalError), evalPostorder t.postorder = .error e ↔ t.FirstFailure e) ∧
      ∀ t : Tree, t.subtrees.map Tree.root = t.postorder := by
  refine ⟨fun _ _ => evalPostorder_eq_ok_iff_hasValue, fun t e => ?_, Tree.map_root_subtrees⟩
  rw [evalPostorder_postorder]
  exact Tree.eval_eq_error_iff

end TargetQuiz.Expression

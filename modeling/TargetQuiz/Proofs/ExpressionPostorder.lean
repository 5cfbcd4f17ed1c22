import Mathlib.Data.List.Forall2
import TargetQuiz.Expression.Evaluate
import TargetQuiz.Proofs.Outcome

/-! Tokens evaluate to a value exactly when they are the postorder of a tree with that value: the
stack holds the values of trees whose postorders, one after another, are what has been read. -/
namespace TargetQuiz.Expression

def Token.operand? : Token → Option Operand
  | .operand o => some o
  | _ => none

def operandsOf (tokens : List Token) : List Operand := tokens.filterMap Token.operand?

theorem operandsOf_append (ts us : List Token) :
    operandsOf (ts ++ us) = operandsOf ts ++ operandsOf us := List.filterMap_append

theorem operandsOf_operators (ops : List Operator) :
    operandsOf (ops.map Token.operator) = [] := by
  simp [operandsOf, Token.operand?]

theorem typedNumbers_eq (tokens : List Token) :
    typedNumbers tokens = (operandsOf tokens).flatMap Operand.typed := by
  induction tokens with
  | nil => rfl
  | cons token tokens ih =>
    rw [typedNumbers, List.flatMap_cons]
    cases token with
    | operand o => exact congrArg (o.typed ++ ·) ih
    | operator op => exact ih
    | opening => exact ih
    | closing => exact ih

theorem operandsOf_postorder (t : Tree) : operandsOf t.postorder = t.operands := by
  induction t with
  | leaf o => rfl
  | node op left right ihl ihr =>
    simp only [Tree.postorder, Tree.operands, operandsOf_append, ihl, ihr]
    simp [operandsOf, Token.operand?]

/-- Reading the postorder of a tree pushes the value of the tree, or fails as the tree does. -/
theorem foldlM_postorder (t : Tree) (stack : List Fraction) (rest : List Token) :
    (t.postorder ++ rest).foldlM evalStep stack =
      t.eval.bind fun value => rest.foldlM evalStep (value :: stack) := by
  induction t generalizing stack rest with
  | leaf o =>
    simp only [Tree.postorder, Tree.eval, List.singleton_append, List.foldlM_cons, evalStep]
    cases o.value <;> rfl
  | node op left right ihl ihr =>
    simp only [Tree.postorder, List.append_assoc, ihl, ihr, Tree.eval]
    cases left.eval with
    | error e => rfl
    | ok a =>
      cases right.eval with
      | error e => rfl
      | ok b =>
        change ((op.apply a b).mapError EvalError.ofArithmetic >>= fun value =>
            pure (value :: stack)) >>= (fun s => rest.foldlM evalStep s) =
          ((op.apply a b).mapError EvalError.ofArithmetic).bind fun value =>
            rest.foldlM evalStep (value :: stack)
        cases op.apply a b <;> rfl

theorem evalPostorder_postorder (t : Tree) : evalPostorder t.postorder = t.eval := by
  have h := foldlM_postorder t [] []
  rw [List.append_nil] at h
  simp only [evalPostorder, h]
  cases t.eval <;> rfl

def Stacked (trees : List Tree) (stack : List Fraction) : Prop :=
  List.Forall₂ (fun t value => t.eval = .ok value) trees stack

/-- What has been read when the trees are stacked, the last one uppermost. -/
def spelled (trees : List Tree) : List Token := trees.reverse.flatMap Tree.postorder

theorem spelled_cons (t : Tree) (trees : List Tree) :
    spelled (t :: trees) = spelled trees ++ t.postorder := by
  simp [spelled]

theorem evalStep_stacked {trees : List Tree} {stack stack' : List Fraction} {token : Token}
    (hs : Stacked trees stack) (h : evalStep stack token = .ok stack') :
    ∃ trees', Stacked trees' stack' ∧ spelled trees' = spelled trees ++ [token] := by
  cases token with
  | operand o =>
    obtain ⟨value, hv, rfl⟩ := bind_pure_eq_ok_iff.1 h
    exact ⟨.leaf o :: trees, .cons hv hs, spelled_cons _ _⟩
  | operator op =>
    match trees, stack, hs with
    | [], _, .nil => simp [evalStep, applyTop] at h
    | [_], _, .cons _ .nil => simp [evalStep, applyTop] at h
    | right :: left :: rest, _, .cons hr (.cons hl hs) =>
      obtain ⟨value, hv, rfl⟩ := bind_pure_eq_ok_iff.1 h
      have hnode : (Tree.node op left right).eval = .ok value :=
        bind_eq_ok_iff.2 ⟨_, hl, bind_eq_ok_iff.2 ⟨_, hr, hv⟩⟩
      refine ⟨.node op left right :: rest, .cons hnode hs, ?_⟩
      simp [spelled_cons, Tree.postorder]
  | opening => simp [evalStep] at h
  | closing => simp [evalStep] at h

theorem foldlM_evalStep_stacked {tokens : List Token} {trees : List Tree}
    {stack stack' : List Fraction} (hs : Stacked trees stack)
    (h : tokens.foldlM evalStep stack = .ok stack') :
    ∃ trees', Stacked trees' stack' ∧ spelled trees' = spelled trees ++ tokens := by
  induction tokens generalizing trees stack with
  | nil =>
    obtain rfl := pure_eq_ok_iff.1 h
    exact ⟨trees, hs, (List.append_nil _).symm⟩
  | cons token tokens ih =>
    rw [List.foldlM_cons] at h
    obtain ⟨next, hstep, hrun⟩ := bind_eq_ok_iff.1 h
    obtain ⟨middle, hmiddle, hread⟩ := evalStep_stacked hs hstep
    obtain ⟨trees', htrees', hall⟩ := ih hmiddle hrun
    exact ⟨trees', htrees', by rw [hall, hread, List.append_assoc, List.singleton_append]⟩

/-- Exactly the postorders of trees with a value evaluate, and to that value. -/
theorem evalPostorder_eq_ok_iff {tokens : List Token} {value : Fraction} :
    evalPostorder tokens = .ok value ↔ ∃ t : Tree, tokens = t.postorder ∧ t.eval = .ok value := by
  constructor
  · intro h
    obtain ⟨stack, hrun, hlast⟩ := bind_eq_ok_iff.1 h
    obtain ⟨trees, hs, hread⟩ := foldlM_evalStep_stacked .nil hrun
    match trees, stack, hs with
    | [], _, .nil => simp at hlast
    | [t], _, .cons hv .nil =>
      simp only [Except.ok.injEq] at hlast
      exact ⟨t, by simpa [spelled] using hread.symm, hlast ▸ hv⟩
    | _ :: _ :: _, _, .cons _ (.cons _ _) => simp at hlast
  · rintro ⟨t, rfl, hv⟩
    rw [evalPostorder_postorder, hv]

theorem release_eq (op : Operator) (pending : List Pending) :
    ∃ ops : List Operator, (release op pending).1 = ops.map .operator ∧
      pending = ops.map .operator ++ (release op pending).2 := by
  induction pending with
  | nil => exact ⟨[], rfl, rfl⟩
  | cons top rest ih =>
    cases top with
    | group => exact ⟨[], rfl, rfl⟩
    | operator top =>
      by_cases hlt : top.precedence < op.precedence
      · exact ⟨[], by simp [release, hlt], by simp [release, hlt]⟩
      · obtain ⟨ops, hout, hkept⟩ := ih
        refine ⟨top :: ops, ?_, ?_⟩
        · simp [release, hlt, hout]
        · rw [release, if_neg hlt]
          simpa using hkept

theorem closeGroup_eq_ok {pending kept : List Pending} {out : List Token}
    (h : closeGroup pending = .ok (out, kept)) :
    ∃ ops : List Operator, out = ops.map .operator ∧
      pending = ops.map .operator ++ .group :: kept := by
  induction pending generalizing out kept with
  | nil => simp [closeGroup] at h
  | cons top rest ih =>
    cases top with
    | group =>
      cases h
      exact ⟨[], rfl, rfl⟩
    | operator top =>
      obtain ⟨⟨out', kept'⟩, hrest, hout⟩ := bind_eq_ok_iff.1 h
      cases hout
      obtain ⟨ops, rfl, rfl⟩ := ih hrest
      exact ⟨top :: ops, rfl, rfl⟩

theorem releaseAll_eq_ok {pending : List Pending} {out : List Token}
    (h : releaseAll pending = .ok out) :
    ∃ ops : List Operator, out = ops.map .operator ∧ pending = ops.map .operator := by
  induction pending generalizing out with
  | nil =>
    cases h
    exact ⟨[], rfl, rfl⟩
  | cons top rest ih =>
    cases top with
    | group => simp [releaseAll] at h
    | operator top =>
      obtain ⟨out', hrest, hout⟩ := bind_eq_ok_iff.1 h
      cases hout
      obtain ⟨ops, rfl, rfl⟩ := ih hrest
      exact ⟨top :: ops, rfl, rfl⟩

/-- What the arrangement does with each token, given what is pending. The operators that leave are
the uppermost ones and keep their order. -/
inductive Arranged : List Pending → List Token → List Token → Prop
  | nil (ops : List Operator) : Arranged (ops.map .operator) [] (ops.map .operator)
  | operand (o : Operand) {pending : List Pending} {tokens out : List Token}
      (hrest : Arranged pending tokens out) :
      Arranged pending (.operand o :: tokens) (.operand o :: out)
  | operator (op : Operator) (ops : List Operator) {kept : List Pending}
      {tokens out : List Token} (hrest : Arranged (.operator op :: kept) tokens out) :
      Arranged (ops.map .operator ++ kept) (.operator op :: tokens) (ops.map .operator ++ out)
  | opening {pending : List Pending} {tokens out : List Token}
      (hrest : Arranged (.group :: pending) tokens out) : Arranged pending (.opening :: tokens) out
  | closing (ops : List Operator) {kept : List Pending} {tokens out : List Token}
      (hrest : Arranged kept tokens out) :
      Arranged (ops.map .operator ++ .group :: kept) (.closing :: tokens)
        (ops.map .operator ++ out)

theorem arranged_of_arrange {tokens out : List Token} {pending : List Pending}
    (h : arrange pending tokens = .ok out) : Arranged pending tokens out := by
  induction tokens generalizing pending out with
  | nil =>
    obtain ⟨ops, rfl, rfl⟩ := releaseAll_eq_ok h
    exact .nil ops
  | cons token tokens ih =>
    cases token with
    | operand o =>
      obtain ⟨out', hrest, rfl⟩ := bind_pure_eq_ok_iff.1 h
      exact .operand o (ih hrest)
    | operator op =>
      obtain ⟨out', hrest, rfl⟩ := bind_pure_eq_ok_iff.1 h
      obtain ⟨ops, hreleased, hpending⟩ := release_eq op pending
      have harranged := Arranged.operator op ops (ih hrest)
      rw [← hpending] at harranged
      rwa [hreleased]
    | opening => exact .opening (ih h)
    | closing =>
      obtain ⟨⟨released, kept⟩, hclose, hrun⟩ := bind_eq_ok_iff.1 h
      obtain ⟨out', hrest, rfl⟩ := bind_pure_eq_ok_iff.1 hrun
      obtain ⟨ops, rfl, rfl⟩ := closeGroup_eq_ok hclose
      exact .closing ops (ih hrest)

/-- Arranging moves operators only: the operands stay in reading order. -/
theorem Arranged.operandsOf_eq {pending : List Pending} {tokens out : List Token}
    (h : Arranged pending tokens out) : operandsOf out = operandsOf tokens := by
  induction h with
  | nil ops => exact operandsOf_operators ops
  | operand o _ ih => exact congrArg (o :: ·) ih
  | operator op ops _ ih =>
    rw [operandsOf_append, operandsOf_operators, ih]
    rfl
  | opening _ ih => exact ih
  | closing ops _ ih =>
    rw [operandsOf_append, operandsOf_operators, ih]
    rfl

theorem operandsOf_toPostorder {tokens out : List Token} (h : toPostorder tokens = .ok out) :
    operandsOf out = operandsOf tokens := (arranged_of_arrange h).operandsOf_eq

end TargetQuiz.Expression

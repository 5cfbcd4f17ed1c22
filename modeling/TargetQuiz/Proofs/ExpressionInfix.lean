import TargetQuiz.Proofs.ExpressionPostorder

/-! The infix grammar as a type of parse trees: `E ::= T | E (+|-) T`, `T ::= F | T (*|/) F` and `F
::= operand | '(' E ')'`. Arranging the tokens of a parse tree gives the postorder of its tree. -/
namespace TargetQuiz.Expression

inductive Rank where
  | sum
  | product
  | factor
  deriving DecidableEq, Repr

namespace Rank

/-- How tightly the operators outside the groups of a phrase bind at least. -/
def strength : Rank → Nat
  | sum => 1
  | product => 2
  | factor => 3

def tighter : Rank → Rank
  | sum => product
  | product | factor => factor

def ofOperator : Operator → Rank
  | .add | .sub => sum
  | .mul | .div => product

theorem strength_ofOperator (op : Operator) : (ofOperator op).strength = op.precedence := by
  cases op <;> rfl

theorem strength_lt_tighter (op : Operator) :
    (ofOperator op).strength < (ofOperator op).tighter.strength := by
  cases op <;> decide

end Rank

inductive Infix : Rank → Type
  | operand (o : Operand) : Infix .factor
  | group (e : Infix .sum) : Infix .factor
  | factor (f : Infix .factor) : Infix .product
  | product (t : Infix .product) : Infix .sum
  | binary (op : Operator) (left : Infix (.ofOperator op))
      (right : Infix (Rank.ofOperator op).tighter) : Infix (.ofOperator op)

namespace Infix

def tokens {r : Rank} : Infix r → List Token
  | operand o => [.operand o]
  | group e => .opening :: (e.tokens ++ [.closing])
  | factor f => f.tokens
  | product t => t.tokens
  | binary op left right => left.tokens ++ .operator op :: right.tokens

/-- What a parse tree means: groups only steer the reading. -/
def tree {r : Rank} : Infix r → Tree
  | operand o => .leaf o
  | group e => e.tree
  | factor f => f.tree
  | product t => t.tree
  | binary op left right => .node op left.tree right.tree

end Infix

/-- No operator at the top of the pending ones is released by an operator of strength `n`. -/
def Yields (n : Nat) : List Pending → Prop
  | .operator top :: _ => top.precedence < n
  | _ => True

/-- What may follow a phrase of strength `n`: nothing, a closing parenthesis, or an operator that
does not bind more tightly. -/
def Ends (n : Nat) : List Token → Prop
  | [] | .closing :: _ => True
  | .operator op :: _ => op.precedence ≤ n
  | .operand _ :: _ | .opening :: _ => False

theorem Yields.mono {m n : Nat} {pending : List Pending} (h : Yields m pending) (hmn : m ≤ n) :
    Yields n pending := by
  match pending with
  | [] | .group :: _ => trivial
  | .operator top :: _ => exact Nat.lt_of_lt_of_le h hmn

theorem Ends.mono {m n : Nat} {rest : List Token} (h : Ends m rest) (hmn : m ≤ n) :
    Ends n rest := by
  match rest with
  | [] | .closing :: _ => trivial
  | .operator op :: _ => exact Nat.le_trans h hmn

theorem release_of_yields {op : Operator} {pending : List Pending}
    (h : Yields op.precedence pending) : release op pending = ([], pending) := by
  match pending with
  | [] | .group :: _ => rfl
  | .operator top :: _ => exact if_pos h

theorem arrange_operand (pending : List Pending) (o : Operand) (rest : List Token) :
    arrange pending (.operand o :: rest) = (arrange pending rest).map (.operand o :: ·) := by
  rw [arrange]
  cases arrange pending rest <;> rfl

theorem arrange_operator_of_yields {op : Operator} (pending : List Pending)
    (h : Yields op.precedence pending) (rest : List Token) :
    arrange pending (.operator op :: rest) = arrange (.operator op :: pending) rest := by
  simp only [arrange, release_of_yields h, List.nil_append]
  cases arrange (.operator op :: pending) rest <;> rfl

theorem arrange_closing_group (pending : List Pending) (rest : List Token) :
    arrange (.group :: pending) (.closing :: rest) = arrange pending rest := by
  change (arrange pending rest >>= fun out => pure ([] ++ out)) = arrange pending rest
  cases arrange pending rest <;> rfl

/-- A pending operator is put out first when something follows that it binds at least as tightly
as. -/
theorem arrange_pending {op : Operator} {rest : List Token} (h : Ends op.precedence rest)
    (pending : List Pending) :
    arrange (.operator op :: pending) rest = (arrange pending rest).map (.operator op :: ·) := by
  match rest with
  | [] =>
    simp only [arrange, releaseAll]
    cases releaseAll pending <;> rfl
  | .closing :: rest =>
    simp only [arrange, closeGroup]
    cases closeGroup pending with
    | error e => rfl
    | ok released =>
      change (arrange released.2 rest >>= fun out => pure (.operator op :: released.1 ++ out)) =
        (arrange released.2 rest >>= fun out => pure (released.1 ++ out)).map (.operator op :: ·)
      cases arrange released.2 rest <;> rfl
  | .operator arriving :: rest =>
    have hrelease : release arriving (.operator op :: pending) =
        (.operator op :: (release arriving pending).1, (release arriving pending).2) :=
      if_neg (Nat.not_lt.2 h)
    simp only [arrange, hrelease, List.cons_append]
    cases arrange (.operator arriving :: (release arriving pending).2) rest <;> rfl

/-- Reading a phrase puts out the postorder of its tree and leaves the pending as they were. -/
theorem arrange_tokens {r : Rank} (e : Infix r) (pending : List Pending) (rest : List Token)
    (hp : Yields r.strength pending) (hr : Ends r.strength rest) :
    arrange pending (e.tokens ++ rest) = (arrange pending rest).map (e.tree.postorder ++ ·) := by
  induction e generalizing pending rest with
  | operand o => exact arrange_operand pending o rest
  | group e ih =>
    have hinner := ih (.group :: pending) (.closing :: rest) trivial trivial
    rw [arrange_closing_group] at hinner
    simpa only [Infix.tokens, Infix.tree, arrange, List.cons_append, List.append_assoc,
      List.nil_append] using hinner
  | factor f ih => exact ih pending rest (hp.mono (by decide)) (hr.mono (by decide))
  | product t ih => exact ih pending rest (hp.mono (by decide)) (hr.mono (by decide))
  | binary op left right ihl ihr =>
    -- The left phrase ends where `op` comes, and the right one is read while `op` is pending.
    have hlt := Rank.strength_lt_tighter op
    rw [Rank.strength_ofOperator] at hp hr hlt
    have hleft := ihl pending (.operator op :: (right.tokens ++ rest))
      (by rwa [Rank.strength_ofOperator]) (by rw [Rank.strength_ofOperator]; exact Nat.le_refl _)
    have hright := ihr (.operator op :: pending) rest hlt
      (hr.mono (Nat.le_of_lt hlt))
    rw [Infix.tokens, List.append_assoc, List.cons_append, hleft,
      arrange_operator_of_yields pending hp, hright, arrange_pending hr]
    cases arrange pending rest <;> simp [Except.map, Infix.tree, Tree.postorder]

theorem toPostorder_tokens {r : Rank} (e : Infix r) :
    toPostorder e.tokens = .ok e.tree.postorder := by
  have h := arrange_tokens e [] [] trivial trivial
  rw [List.append_nil] at h
  rw [toPostorder, h]
  simp [arrange, releaseAll, Except.map]

theorem operandsOf_tokens {r : Rank} (e : Infix r) : operandsOf e.tokens = e.tree.operands := by
  rw [← operandsOf_toPostorder (toPostorder_tokens e), operandsOf_postorder]

/-- Of two operators between three factors the second is applied first exactly when it binds more
tightly. -/
theorem toPostorder_two_operators (a b c : Infix .factor) (first second : Operator) :
    toPostorder (a.tokens ++ .operator first :: (b.tokens ++ .operator second :: c.tokens)) =
      .ok (if first.precedence < second.precedence
        then Tree.node first a.tree (.node second b.tree c.tree)
        else Tree.node second (.node first a.tree b.tree) c.tree).postorder := by
  have hfactor (op : Operator) : op.precedence < Rank.factor.strength := by cases op <;> decide
  have hpending (op : Operator) (pending : List Pending) :
      Yields Rank.factor.strength (.operator op :: pending) := hfactor op
  have hnext (op : Operator) (rest : List Token) :
      Ends Rank.factor.strength (.operator op :: rest) := Nat.le_of_lt (hfactor op)
  have hlast (op : Operator) (pending : List Pending) :
      arrange (.operator op :: pending) c.tokens =
        (releaseAll (.operator op :: pending)).map (c.tree.postorder ++ ·) := by
    simpa [arrange] using arrange_tokens c _ [] (hpending op pending) trivial
  rw [toPostorder, arrange_tokens a [] _ trivial (hnext first _),
    arrange_operator_of_yields [] trivial,
    arrange_tokens b _ _ (hpending first []) (hnext second _)]
  by_cases h : first.precedence < second.precedence
  · rw [arrange_operator_of_yields [.operator first] h, hlast, if_pos h]
    simp [releaseAll, Except.map, Tree.postorder, bind, Except.bind, pure, Except.pure]
  · have hends : Ends first.precedence (.operator second :: c.tokens) := Nat.not_lt.1 h
    rw [arrange_pending hends, arrange_operator_of_yields [] trivial, hlast, if_neg h]
    simp [releaseAll, Except.map, Tree.postorder, bind, Except.bind, pure, Except.pure]

theorem eval_eq_arithmetic (t : Tree) :
    ∃ result : Except ArithmeticError Fraction, t.eval = result.mapError .ofArithmetic := by
  induction t with
  | leaf o =>
    cases o with
    | integer n => exact ⟨.ok _, rfl⟩
    | ratio num den => exact ⟨Fraction.ofWords num den, rfl⟩
    | minusOne => exact ⟨.ok _, rfl⟩
  | node op left right ihl ihr =>
    obtain ⟨x, hx⟩ := ihl
    obtain ⟨y, hy⟩ := ihr
    refine ⟨do op.apply (← x) (← y), ?_⟩
    rw [Tree.eval, hx, hy]
    cases x <;> cases y <;> rfl

/-- The parse trees of the grammar are read as they are meant. Their tokens are arranged into the
postorder of their trees, and the postorder evaluates as the tree does, with the same value or the
same arithmetic error. So of two operators the tighter one, and of equally tight ones the left one,
is applied first, whatever stands between them. -/
theorem infix_reading :
    (∀ e : Infix .sum, toPostorder e.tokens = .ok e.tree.postorder ∧
      evalPostorder e.tree.postorder = e.tree.eval ∧
      ∃ result : Except ArithmeticError Fraction, e.tree.eval = result.mapError .ofArithmetic) ∧
    ∀ (a b c : Infix .factor) (first second : Operator),
      toPostorder (a.tokens ++ .operator first :: (b.tokens ++ .operator second :: c.tokens)) =
        .ok (if first.precedence < second.precedence
          then Tree.node first a.tree (.node second b.tree c.tree)
          else Tree.node second (.node first a.tree b.tree) c.tree).postorder :=
  ⟨fun e => ⟨toPostorder_tokens e, evalPostorder_postorder e.tree, eval_eq_arithmetic e.tree⟩,
    toPostorder_two_operators⟩

end TargetQuiz.Expression

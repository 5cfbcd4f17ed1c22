import Mathlib.Data.List.Perm.Basic
import TargetQuiz.Proofs.ExpressionPlacement

/-! Arranging fails on unbalanced parentheses only, in whatever order the tokens stand, and
otherwise no token but the parentheses is lost, added or repeated. -/
namespace TargetQuiz.Expression

def Token.isParenthesis : Token → Bool
  | .opening | .closing => true
  | .operand _ | .operator _ => false

/-- No prefix closes more groups than it opens, and no group stays open. -/
structure Balanced (tokens : List Token) : Prop where
  closed_le : ∀ front, front <+: tokens → front.count .closing ≤ front.count .opening
  opened_le : tokens.count .opening ≤ tokens.count .closing

theorem forall_prefix_cons {α : Type} {a : α} {as : List α} {p : List α → Prop} :
    (∀ front, front <+: a :: as → p front) ↔ p [] ∧ ∀ front, front <+: as → p (a :: front) := by
  constructor
  · intro h
    refine ⟨h [] List.nil_prefix, fun front hfront => h _ ?_⟩
    rwa [List.prefix_cons_inj]
  · rintro ⟨hnil, hcons⟩ front hfront
    rcases List.prefix_cons_iff.1 hfront with rfl | ⟨front', rfl, hfront'⟩
    · exact hnil
    · exact hcons front' hfront'

/-- The depth counts the groups that were opened before the tokens. -/
theorem closes_iff {depth : Nat} {tokens : List Token} :
    Closes depth tokens ↔
      (∀ front, front <+: tokens → front.count .closing ≤ depth + front.count .opening) ∧
        depth + tokens.count .opening ≤ tokens.count .closing := by
  induction tokens generalizing depth with
  | nil => simp [Closes]
  | cons token tokens ih =>
    rw [forall_prefix_cons]
    cases token with
    | operand o => simp [Closes, ih]
    | operator op => simp [Closes, ih]
    | opening => simp [Closes, ih, Nat.add_assoc, Nat.add_comm 1]
    | closing =>
      have hclosed (front : List Token) :
          (Token.closing :: front).count .closing = front.count .closing + 1 :=
        List.count_cons_self
      have hopened (front : List Token) :
          (Token.closing :: front).count .opening = front.count .opening :=
        List.count_cons_of_ne (by simp)
      simp only [Closes, ih, hclosed, hopened, List.count_nil, Nat.zero_le, true_and]
      constructor
      · rintro ⟨hopen, hfront, hall⟩
        refine ⟨fun front hprefix => ?_, by omega⟩
        have hle := hfront front hprefix
        omega
      · rintro ⟨hfront, hall⟩
        -- the closing token alone is a front, which gives the group that it closes
        have hopen := hfront [] List.nil_prefix
        simp only [List.count_nil] at hopen
        refine ⟨by omega, fun front hprefix => ?_, by omega⟩
        have hle := hfront front hprefix
        omega

theorem balanced_iff_closes {tokens : List Token} : Balanced tokens ↔ Closes 0 tokens := by
  rw [closes_iff]
  simp only [Nat.zero_add]
  exact ⟨fun h => ⟨h.closed_le, h.opened_le⟩, fun h => ⟨h.1, h.2⟩⟩

theorem closeGroup_eq_error_iff {pending : List Pending} {e : EvalError} :
    closeGroup pending = .error e ↔ e = .syntaxError .parentheses ∧ pending.count .group = 0 := by
  induction pending with
  | nil => simp [closeGroup, eq_comm]
  | cons top pending ih =>
    cases top with
    | group => simp [closeGroup]
    | operator op =>
      rw [closeGroup, bind_eq_error_iff, ih]
      simp [pure_ne_error]

theorem releaseAll_eq_error_iff {pending : List Pending} {e : EvalError} :
    releaseAll pending = .error e ↔ e = .syntaxError .parentheses ∧ 0 < pending.count .group := by
  induction pending with
  | nil => simp [releaseAll]
  | cons top pending ih =>
    cases top with
    | group => simp [releaseAll, eq_comm]
    | operator op =>
      rw [releaseAll, bind_eq_error_iff, ih]
      simp [pure_ne_error]

theorem count_group_release (op : Operator) (pending : List Pending) :
    (release op pending).2.count .group = pending.count .group := by
  obtain ⟨ops, -, hpending⟩ := release_eq op pending
  conv_rhs => rw [hpending, count_group_append]

theorem count_group_closeGroup {pending kept : List Pending} {out : List Token}
    (h : closeGroup pending = .ok (out, kept)) :
    pending.count .group = kept.count .group + 1 := by
  obtain ⟨ops, -, rfl⟩ := closeGroup_eq_ok h
  rw [count_group_append, List.count_cons_self]

/-- The groups that are pending are the open ones, so only parentheses decide on failure. -/
theorem arrange_eq_error_iff {tokens : List Token} {pending : List Pending} {e : EvalError} :
    arrange pending tokens = .error e ↔
      e = .syntaxError .parentheses ∧ ¬Closes (pending.count .group) tokens := by
  induction tokens generalizing pending with
  | nil =>
    rw [arrange, releaseAll_eq_error_iff]
    simp [Closes, Nat.pos_iff_ne_zero]
  | cons token tokens ih =>
    cases token with
    | operand o =>
      rw [arrange, bind_eq_error_iff, ih]
      simp [pure_ne_error, Closes]
    | operator op =>
      rw [arrange]
      change (arrange (.operator op :: (release op pending).2) tokens >>= _) = _ ↔ _
      rw [bind_eq_error_iff, ih]
      simp [pure_ne_error, Closes, count_group_release]
    | opening =>
      rw [arrange, ih]
      simp [Closes]
    | closing =>
      rw [arrange, bind_eq_error_iff, closeGroup_eq_error_iff]
      cases hclose : closeGroup pending with
      | error cause =>
        have hzero := (closeGroup_eq_error_iff.1 hclose).2
        simp [Closes, hzero]
      | ok closed =>
        have hcount := count_group_closeGroup hclose
        simp only [hcount, Closes, bind_eq_error_iff, ih]
        simp [pure_ne_error]

def waiting (pending : List Pending) : List Token :=
  pending.filterMap fun
    | .operator op => some (.operator op)
    | .group => none

theorem waiting_operators (ops : List Operator) (pending : List Pending) :
    waiting (ops.map .operator ++ pending) = ops.map .operator ++ waiting pending := by
  induction ops with
  | nil => rfl
  | cons op ops ih => exact congrArg (.operator op :: ·) ih

theorem Arranged.perm {pending : List Pending} {tokens out : List Token}
    (h : Arranged pending tokens out) :
    out.Perm (waiting pending ++ tokens.filter fun t => !t.isParenthesis) := by
  induction h with
  | nil ops => simp [waiting]
  | operand o _ ih => exact (ih.cons _).trans List.perm_middle.symm
  | operator op ops _ ih =>
    rw [waiting_operators, List.append_assoc]
    exact (ih.trans List.perm_middle.symm).append_left _
  | opening _ ih => simpa [waiting, Token.isParenthesis] using ih
  | closing ops _ ih =>
    rw [waiting_operators, List.append_assoc]
    exact ih.append_left _

/-- Without the parentheses, all tokens are there and the operands are in reading order. -/
structure Rearranged (tokens out : List Token) : Prop where
  no_parenthesis : ∀ t ∈ out, t.isParenthesis = false
  perm : out.Perm (tokens.filter fun t => !t.isParenthesis)
  operands : operandsOf out = operandsOf tokens

theorem rearranged_toPostorder {tokens out : List Token} (h : toPostorder tokens = .ok out) :
    Rearranged tokens out := by
  have hperm : out.Perm (tokens.filter fun t => !t.isParenthesis) :=
    (arranged_of_arrange h).perm
  refine ⟨fun t ht => ?_, hperm, operandsOf_toPostorder h⟩
  have hkept := (List.mem_filter.1 (hperm.subset ht)).2
  simpa using hkept

theorem toPostorder_eq_error_iff {tokens : List Token} {e : EvalError} :
    toPostorder tokens = .error e ↔ e = .syntaxError .parentheses ∧ ¬Balanced tokens := by
  rw [balanced_iff_closes]
  exact arrange_eq_error_iff

/-- Any tokens are arranged exactly when their parentheses are balanced, and the only complaint is
about parentheses. Arranging drops the parentheses, keeps every other token as often as it stands
there, and keeps the order of the operands. -/
theorem toPostorder_conserves (tokens : List Token) :
    (∀ e, toPostorder tokens = .error e ↔ e = .syntaxError .parentheses ∧ ¬Balanced tokens) ∧
      SyntaxFault.parentheses.message = "mismatched parentheses" ∧
      ((∃ out, toPostorder tokens = .ok out ∧ Rearranged tokens out) ↔ Balanced tokens) := by
  refine ⟨fun e => toPostorder_eq_error_iff, rfl, ?_⟩
  constructor
  · rintro ⟨out, hout, -⟩
    by_contra hunbalanced
    have herror := toPostorder_eq_error_iff.2 ⟨rfl, hunbalanced⟩
    rw [hout] at herror
    cases herror
  · intro hbalanced
    cases hout : toPostorder tokens with
    | ok out => exact ⟨out, rfl, rearranged_toPostorder hout⟩
    | error e => exact absurd hbalanced (toPostorder_eq_error_iff.1 hout).2

end TargetQuiz.Expression

import TargetQuiz.Proofs.ExpressionOffer
import TargetQuiz.Proofs.ExpressionScan

/-! The tokens of a sentence have balanced parentheses and alternate. Arranging checks the
parentheses and evaluation counts operands, but neither looks at neighbours, so some answers with a
value are no sentences. -/
namespace TargetQuiz.Expression

/-- The sentences of the infix grammar. Minus one occurs as the factor of a group only. -/
inductive Sentence : List Token → Prop
  | operand {o : Operand} (h : o ≠ .minusOne) : Sentence [.operand o]
  | binary {left right : List Token} (op : Operator) (hl : Sentence left) (hr : Sentence right) :
      Sentence (left ++ .operator op :: right)
  | group {inner : List Token} (h : Sentence inner) : Sentence (.opening :: (inner ++ [.closing]))
  | negatedGroup {inner : List Token} (h : Sentence inner) :
      Sentence (.operand .minusOne :: .operator .mul :: .opening :: (inner ++ [.closing]))

def Token.startsOperand : Token → Bool
  | .operand _ | .opening => true
  | .operator _ | .closing => false

def Token.endsOperand : Token → Bool
  | .operand _ | .closing => true
  | .operator _ | .opening => false

structure WellPlaced (tokens : List Token) : Prop where
  sides : ∀ before op after, tokens = before ++ .operator op :: after →
    (∃ front left, before = front ++ [left] ∧ left.endsOperand = true) ∧
      ∃ right back, after = right :: back ∧ right.startsOperand = true
  apart : ∀ before left right after, tokens = before ++ left :: right :: after →
    ¬(left.endsOperand = true ∧ right.startsOperand = true)
  filled : ∀ before after, tokens ≠ before ++ .opening :: .closing :: after

/-- The parentheses match when so many groups are open before the tokens. -/
def Closes (depth : Nat) : List Token → Prop
  | [] => depth = 0
  | .opening :: rest => Closes (depth + 1) rest
  | .closing :: rest => 0 < depth ∧ Closes (depth - 1) rest
  | .operand _ :: rest | .operator _ :: rest => Closes depth rest

/-- Operands and operators alternate; the flag says that an operand or a group comes next. -/
def Placed (fresh : Bool) : List Token → Prop
  | [] => fresh = false
  | t :: rest => t.startsOperand = fresh ∧ Placed (!t.endsOperand) rest

theorem count_group_append (ops : List Operator) (pending : List Pending) :
    (ops.map Pending.operator ++ pending).count .group = pending.count .group := by
  induction ops with
  | nil => rfl
  | cons op ops ih => simpa [List.count_cons] using ih

theorem Arranged.closes {pending : List Pending} {tokens out : List Token}
    (h : Arranged pending tokens out) : Closes (pending.count .group) tokens := by
  induction h with
  | nil ops => simpa [Closes] using count_group_append ops []
  | operand o _ ih => exact ih
  | operator op ops _ ih =>
    rw [count_group_append]
    simpa [Closes, List.count_cons] using ih
  | opening _ ih => simpa [Closes, List.count_cons] using ih
  | closing ops _ ih =>
    rw [count_group_append, List.count_cons_self]
    exact ⟨Nat.succ_pos _, ih⟩

theorem closes_of_toPostorder {tokens out : List Token} (h : toPostorder tokens = .ok out) :
    Closes 0 tokens := (arranged_of_arrange h).closes

theorem not_closes_append_opening {before : List Token} {depth : Nat} :
    ¬Closes depth (before ++ [.opening]) := by
  induction before generalizing depth with
  | nil => simp [Closes]
  | cons token before ih =>
    cases token with
    | operand o => exact ih
    | operator op => exact ih
    | opening => exact ih
    | closing => exact fun h => ih h.2

theorem Placed.pair {fresh : Bool} {before after : List Token} {a b : Token}
    (h : Placed fresh (before ++ a :: b :: after)) : b.startsOperand = !a.endsOperand := by
  induction before generalizing fresh with
  | nil => exact h.2.1
  | cons token before ih => exact ih h.2

theorem Placed.last {fresh : Bool} {before : List Token} {a : Token}
    (h : Placed fresh (before ++ [a])) : a.endsOperand = true := by
  induction before generalizing fresh with
  | nil => simpa [Placed] using h.2
  | cons token before ih => exact ih h.2

theorem Placed.wellPlaced {tokens : List Token} (h : Placed true tokens) : WellPlaced tokens where
  sides := by
    rintro before op after rfl
    constructor
    · rcases List.eq_nil_or_concat before with rfl | ⟨front, left, rfl⟩
      · exact absurd h.1 (by simp [Token.startsOperand])
      · rw [List.concat_eq_append, List.append_assoc] at h
        exact ⟨front, left, List.concat_eq_append, by simpa [Token.startsOperand] using h.pair⟩
    · cases after with
      | nil => exact absurd h.last (by simp [Token.endsOperand])
      | cons right back => exact ⟨right, back, rfl, by simpa [Token.endsOperand] using h.pair⟩
  apart := by
    rintro before left right after rfl ⟨hleft, hright⟩
    simp [h.pair, hleft] at hright
  filled := by
    rintro before after rfl
    simpa [Token.startsOperand, Token.endsOperand] using h.pair

theorem WellPlaced.startsOperand_of_opening {tokens : List Token} (h : WellPlaced tokens)
    {before after : List Token} {next : Token}
    (heq : tokens = before ++ .opening :: next :: after) : next.startsOperand = true := by
  cases next with
  | operand o => rfl
  | opening => rfl
  | operator op =>
    obtain ⟨front, left, hfront, hleft⟩ := (h.sides (before ++ [.opening]) op after (by simpa)).1
    obtain rfl : Token.opening = left := by simpa using (List.append_inj' hfront rfl).2
    simp [Token.endsOperand] at hleft
  | closing => exact absurd heq (h.filled before after)

/-- What has been read decides whether an operand or a group comes next. -/
theorem WellPlaced.placed_suffix {tokens : List Token} (h : WellPlaced tokens)
    (hclose : Closes 0 tokens) (after before : List Token) (last : Token)
    (heq : tokens = before ++ last :: after) : Placed (!last.endsOperand) after := by
  induction after generalizing before last with
  | nil =>
    cases last with
    | operand o => rfl
    | closing => rfl
    | operator op =>
      obtain ⟨right, back, hback, _⟩ := (h.sides before op [] heq).2
      cases hback
    | opening => exact absurd (heq ▸ hclose) not_closes_append_opening
  | cons next after ih =>
    refine ⟨?_, ih (before ++ [last]) next (by simpa using heq)⟩
    cases last with
    | operand o => simpa [Token.endsOperand] using h.apart before _ next after heq
    | closing => simpa [Token.endsOperand] using h.apart before _ next after heq
    | operator op =>
      obtain ⟨right, back, hback, hright⟩ := (h.sides before op (next :: after) heq).2
      obtain ⟨rfl, rfl⟩ := List.cons.inj hback
      simpa [Token.endsOperand] using hright
    | opening => exact h.startsOperand_of_opening heq

theorem WellPlaced.placed {tokens : List Token} (h : WellPlaced tokens)
    (hclose : Closes 0 tokens) (hne : tokens ≠ []) : Placed true tokens := by
  cases tokens with
  | nil => exact absurd rfl hne
  | cons first rest =>
    refine ⟨?_, h.placed_suffix hclose rest [] first rfl⟩
    cases first with
    | operand o => rfl
    | opening => rfl
    | operator op =>
      obtain ⟨front, left, hfront, _⟩ := (h.sides [] op rest rfl).1
      simp at hfront
    | closing => exact absurd hclose.1 (Nat.lt_irrefl 0)

theorem Sentence.placed_append {e : List Token} (h : Sentence e) (rest : List Token) :
    Placed true (e ++ rest) ↔ Placed false rest := by
  induction h generalizing rest with
  | operand => simp [Placed, Token.startsOperand, Token.endsOperand]
  | binary op _ _ ihl ihr =>
    rw [List.append_assoc, ihl, List.cons_append]
    simp [Placed, Token.startsOperand, Token.endsOperand, ihr]
  | group _ ih => simp [Placed, Token.startsOperand, Token.endsOperand, ih]
  | negatedGroup _ ih => simp [Placed, Token.startsOperand, Token.endsOperand, ih]

theorem Sentence.wellPlaced {tokens : List Token} (h : Sentence tokens) : WellPlaced tokens := by
  have hplaced := (h.placed_append []).2 rfl
  rw [List.append_nil] at hplaced
  exact hplaced.wellPlaced

/-- What remains to be read of scanned tokens when `depth` groups are open. -/
structure Remaining (depth : Nat) (fresh : Bool) (tokens : List Token) : Prop where
  closes : Closes depth tokens
  placed : Placed fresh tokens
  negates : NegatesGroups tokens

theorem NegatesGroups.tail {t : Token} {rest : List Token} (h : NegatesGroups (t :: rest)) :
    NegatesGroups rest := by
  cases t with
  | operand o =>
    cases o with
    | minusOne => exact h.2
    | integer n => exact h
    | ratio num den => exact h
  | operator op => exact h
  | opening => exact h
  | closing => exact h

namespace Remaining

variable {depth : Nat} {fresh : Bool} {rest : List Token}

theorem after_operand {o : Operand} (h : Remaining depth true (.operand o :: rest)) :
    Remaining depth false rest := ⟨h.closes, h.placed.2, h.negates.tail⟩

theorem after_operator {op : Operator} (h : Remaining depth false (.operator op :: rest)) :
    Remaining depth true rest := ⟨h.closes, h.placed.2, h.negates.tail⟩

theorem after_opening (h : Remaining depth true (.opening :: rest)) :
    Remaining (depth + 1) true rest := ⟨h.closes, h.placed.2, h.negates.tail⟩

end Remaining

/-- A longest sentence can be read off the front of the tokens. -/
def Leads (depth : Nat) (tokens : List Token) : Prop :=
  ∃ e rest, Sentence e ∧ tokens = e ++ rest ∧ Remaining depth false rest ∧
    ∀ op after, rest ≠ .operator op :: after

theorem Leads.closing {depth : Nat} {tokens : List Token} (h : Leads (depth + 1) tokens) :
    ∃ inner after, Sentence inner ∧ tokens = inner ++ .closing :: after ∧
      Remaining depth false after := by
  obtain ⟨inner, rest, hinner, rfl, hrest, hop⟩ := h
  refine ⟨inner, ?_⟩
  cases rest with
  | nil => exact absurd hrest.closes (Nat.succ_ne_zero depth)
  | cons t after =>
    cases t with
    | operand o => exact absurd hrest.placed.1 (by simp [Token.startsOperand])
    | opening => exact absurd hrest.placed.1 (by simp [Token.startsOperand])
    | operator op => exact absurd rfl (hop op after)
    | closing => exact ⟨after, hinner, rfl, hrest.closes.2, hrest.placed.2, hrest.negates.tail⟩

theorem Leads.extend {depth : Nat} {e rest : List Token} (he : Sentence e)
    (hrest : Remaining depth false rest)
    (ih : ∀ op after, rest = .operator op :: after → Leads depth after) :
    Leads depth (e ++ rest) := by
  by_cases hop : ∃ op after, rest = .operator op :: after
  · obtain ⟨op, after, rfl⟩ := hop
    obtain ⟨e', rest', he', rfl, hrest', hend⟩ := ih op after rfl
    exact ⟨e ++ .operator op :: e', rest', .binary op he he', by simp, hrest', hend⟩
  · exact ⟨e, rest, he, rfl, hrest, fun op after heq => hop ⟨op, after, heq⟩⟩

/-- The induction is on a bound for the length, since a group and what follows it are both read
from the same tokens. -/
theorem Remaining.leads (n : Nat) {depth : Nat} {tokens : List Token} (hn : tokens.length ≤ n)
    (h : Remaining depth true tokens) : Leads depth tokens := by
  induction n generalizing depth tokens with
  | zero =>
    obtain rfl := List.length_eq_zero_iff.1 (Nat.le_zero.1 hn)
    exact absurd h.placed (by simp [Placed])
  | succ n ih =>
    have hnext : ∀ {rest : List Token}, Remaining depth false rest → rest.length ≤ n →
        ∀ op after, rest = .operator op :: after → Leads depth after := by
      rintro _ hrest hlen op after rfl
      exact ih (Nat.le_of_succ_le hlen) hrest.after_operator
    cases tokens with
    | nil => exact absurd h.placed (by simp [Placed])
    | cons t rest =>
      have hrest : rest.length ≤ n := by simpa using hn
      cases t with
      | operator op => exact absurd h.placed.1 (by simp [Token.startsOperand])
      | closing => exact absurd h.placed.1 (by simp [Token.startsOperand])
      | opening =>
        obtain ⟨inner, after, hinner, rfl, hafter⟩ := (ih hrest h.after_opening).closing
        have hlen : after.length ≤ n := by simp at hrest; omega
        simpa using Leads.extend (.group hinner) hafter (hnext hafter hlen)
      | operand o =>
        by_cases ho : o = .minusOne
        -- a generated -1 is followed by the multiplication and the group that it negates
        · subst ho
          obtain ⟨⟨after, rfl⟩, _⟩ := h.negates
          have hlen : after.length ≤ n := by simp at hrest; omega
          obtain ⟨inner, after, hinner, rfl, hafter⟩ :=
            (ih hlen h.after_operand.after_operator.after_opening).closing
          have hlen : after.length ≤ n := by simp at hrest; omega
          simpa using Leads.extend (.negatedGroup hinner) hafter (hnext hafter hlen)
        · exact Leads.extend (.operand ho) h.after_operand (hnext h.after_operand hrest)

theorem Remaining.sentence {tokens : List Token} (h : Remaining 0 true tokens) :
    Sentence tokens := by
  obtain ⟨e, rest, he, rfl, hrest, hop⟩ := h.leads _ (Nat.le_refl _)
  cases rest with
  | nil => rwa [List.append_nil]
  | cons t after =>
    cases t with
    | operand o => exact absurd hrest.placed.1 (by simp [Token.startsOperand])
    | opening => exact absurd hrest.placed.1 (by simp [Token.startsOperand])
    | operator op => exact absurd rfl (hop op after)
    | closing => exact absurd hrest.closes.1 (Nat.lt_irrefl 0)

theorem Means.ne_nil {tokens : List Token} {t : Tree} (h : Means tokens t) : tokens ≠ [] := by
  rintro rfl
  have hnil : t.postorder = [] := (Except.ok.inj h).symm
  cases t <;> simp [Tree.postorder] at hnil

/-- An answer that has a value has matching parentheses, but it need not be a sentence: it is one
exactly when its operators, operands and groups stand where they should, which nothing checks. -/
theorem sentence_iff_wellPlaced {answer : String} {value : Fraction}
    (h : evaluateFreely answer = .ok value) :
    ∃ tokens, tokenize (normalize answer) = .ok tokens ∧ Closes 0 tokens ∧
      (Sentence tokens ↔ WellPlaced tokens) := by
  obtain ⟨tokens, htokens, t, hmeans, _⟩ := evaluateFreely_eq_ok_iff.1 h
  have hclose : Closes 0 tokens := closes_of_toPostorder hmeans
  have hnegates : NegatesGroups tokens := (scan_eq_ok_iff.1 htokens).negatesGroups
  refine ⟨tokens, htokens, hclose, Sentence.wellPlaced, fun hplaced => ?_⟩
  exact Remaining.sentence ⟨hclose, hplaced.placed hclose hmeans.ne_nil, hnegates⟩

theorem sentence_iff_wellPlaced_group :
    evaluateFreely "-(1 + 2) * 3" = .ok (Fraction.whole (-9)) ∧
      ∃ tokens, tokenize (normalize "-(1 + 2) * 3") = .ok tokens ∧ Closes 0 tokens ∧
        (Sentence tokens ↔ WellPlaced tokens) := by
  have h : evaluateFreely "-(1 + 2) * 3" = .ok (Fraction.whole (-9)) := by decide +kernel
  exact ⟨h, sentence_iff_wellPlaced h⟩

theorem value_without_sentence :
    ¬∀ (answer : String) (value : Fraction), evaluateFreely answer = .ok value →
      ∃ tokens, tokenize (normalize answer) = .ok tokens ∧ Sentence tokens := by
  intro h
  obtain ⟨tokens, htokens, hsentence⟩ :=
    h "(1)2+" (Fraction.whole 3) (by decide +kernel)
  have hread : tokenize (normalize "(1)2+") = .ok [.opening, .operand (.integer 1), .closing,
      .operand (.integer 2), .operator .add] := by decide +kernel
  obtain rfl := Except.ok.inj (hread.symm.trans htokens)
  exact hsentence.wellPlaced.apart [.opening, .operand (.integer 1)] .closing
    (.operand (.integer 2)) [.operator .add] rfl ⟨rfl, rfl⟩

end TargetQuiz.Expression

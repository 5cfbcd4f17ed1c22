import TargetQuiz.Proofs.ExpressionOffer
import TargetQuiz.Proofs.ExpressionScan
import TargetQuiz.Proofs.FractionExact
import TargetQuiz.Question.Basic

namespace TargetQuiz.Expression

def Operand.exact : Operand → Option ℚ
  | .integer n => some n.toInt
  | .ratio num den => if den.toInt = 0 then none else some (num.toInt / den.toInt)
  | .minusOne => some (-1)

/-- The rational value of a tree; it has none when a division by zero occurs anywhere in it. -/
def Tree.exact : Tree → Option ℚ
  | .leaf o => o.exact
  | .node op left right => do op.exact (← left.exact) (← right.exact)

theorem Operand.exact_of_value {o : Operand} {value : Fraction} (h : o.value = .ok value) :
    o.exact = some value.toRat := by
  cases o with
  | integer n =>
    cases h
    rw [Fraction.toRat_whole]
    rfl
  | ratio num den =>
    obtain ⟨hden, hvalue⟩ := Fraction.ofQuotient_eq_ok_iff.1 (mapError_eq_ok_iff.1 h)
    rw [Operand.exact, if_neg hden, hvalue]
  | minusOne =>
    cases h
    rw [Fraction.toRat_whole]
    rfl

/-- Evaluation is exact: a tree with a value has it as its rational value. -/
theorem Tree.exact_of_eval {t : Tree} {value : Fraction} (h : t.eval = .ok value) :
    t.exact = some value.toRat := by
  induction t generalizing value with
  | leaf o => exact Operand.exact_of_value h
  | node op left right ihl ihr =>
    obtain ⟨a, ha, h⟩ := bind_eq_ok_iff.1 h
    obtain ⟨b, hb, h⟩ := bind_eq_ok_iff.1 h
    have hop := Operator.apply_eq_ok_iff.1 (mapError_eq_ok_iff.1 h)
    simp [Tree.exact, ihl ha, ihr hb, hop]

theorem Tree.eval_node {op : Operator} {left right : Tree} {a b value : Fraction}
    (hleft : left.eval = .ok a) (hright : right.eval = .ok b)
    (h : op.exact a.toRat b.toRat = some value.toRat) :
    (Tree.node op left right).eval = .ok value := by
  refine bind_eq_ok_iff.2 ⟨a, hleft, bind_eq_ok_iff.2 ⟨b, hright, ?_⟩⟩
  exact mapError_eq_ok_iff.2 (Operator.apply_eq_ok_iff.2 h)

theorem Tree.eval_ratio {num den : Int64} {value : Fraction} (hden : 0 < den.toInt)
    (h : value.toRat = num.toInt / den.toInt) :
    (Tree.leaf (.ratio num den)).eval = .ok value :=
  mapError_eq_ok_iff.2 (Fraction.ofQuotient_eq_ok_iff.2 ⟨Int.ne_of_gt hden, h⟩)

def magnitudes (operands : List Operand) : List Int :=
  (operands.flatMap Operand.parts).map fun n => (n.toInt.natAbs : Int)

theorem map_toInt_typedNumbers {tokens : List Token}
    (h : ∀ o ∈ operandsOf tokens, ∀ n ∈ o.parts, Int64.minValue < n) :
    (typedNumbers tokens).map Int64.toInt = magnitudes (operandsOf tokens) := by
  rw [typedNumbers_eq, magnitudes, List.map_flatMap, List.map_flatMap]
  refine List.flatMap_congr fun o ho => ?_
  rw [Operand.typed_eq, List.map_map]
  exact List.map_congr_left fun n hn => toInt_magnitude (h o ho n hn)

theorem isValid_iff {answer : String} {numbers : List Int64} {target : Fraction} :
    isValid answer numbers target = true ↔ evaluate answer numbers = .ok target := by
  unfold isValid
  cases evaluate answer numbers <;> simp

theorem checkAnswer_accepted_iff {answer : String} {numbers : List Int64} {target : Fraction} :
    (checkAnswer answer numbers target).accepted = true ↔
      evaluate answer numbers = .ok target := by
  unfold checkAnswer
  cases evaluate answer numbers with
  | error e => simp
  | ok value => by_cases h : value = target <;> simp [h]

/-- Acceptance is sound. It agrees with validity and with evaluation to the target, and the
operands of an accepted answer are the leaves, from left to right, of a tree whose exact value is
the target, without a division by zero anywhere, and whose typed magnitudes are a part of the
numbers on offer, taken with multiplicity. -/
theorem accepted_sound (answer : String) (numbers : List Int64) (target : Fraction) :
    ((checkAnswer answer numbers target).accepted = true ↔
      isValid answer numbers target = true) ∧
    (isValid answer numbers target = true ↔ evaluate answer numbers = .ok target) ∧
    ((checkAnswer answer numbers target).accepted = true →
      ∃ (tokens : List Token) (t : Tree), tokenize (normalize answer) = .ok tokens ∧
        t.operands = operandsOf tokens ∧ t.exact = some target.toRat ∧
        (magnitudes t.operands).Subperm (numbers.map Int64.toInt)) := by
  refine ⟨checkAnswer_accepted_iff.trans isValid_iff.symm, isValid_iff, fun h => ?_⟩
  obtain ⟨tokens, htokens, hoffer, t, hmeans, heval⟩ :=
    evaluate_eq_ok_iff.1 (checkAnswer_accepted_iff.1 h)
  refine ⟨tokens, t, htokens, hmeans.operands_eq, Tree.exact_of_eval heval, ?_⟩
  rw [hmeans.operands_eq, ← map_toInt_typedNumbers (scan_eq_ok_iff.1 htokens).minValue_lt]
  exact hoffer.map fun _ _ => Int64.toInt_inj.1

theorem accepted_sound_mixed :
    (checkAnswer "2*(3 1/2)" [1, 2, 2, 3] (Fraction.whole 7)).accepted = true ∧
      ∃ (tokens : List Token) (t : Tree), tokenize (normalize "2*(3 1/2)") = .ok tokens ∧
        t.operands = operandsOf tokens ∧ t.exact = some (Fraction.whole 7).toRat ∧
        (magnitudes t.operands).Subperm (([1, 2, 2, 3] : List Int64).map Int64.toInt) := by
  have h : (checkAnswer "2*(3 1/2)" [1, 2, 2, 3] (Fraction.whole 7)).accepted = true := by
    decide +kernel
  exact ⟨h, (accepted_sound "2*(3 1/2)" [1, 2, 2, 3] (Fraction.whole 7)).2.2 h⟩

end TargetQuiz.Expression

import Mathlib.Data.List.Perm.Subperm
import TargetQuiz.Expression.Evaluate
import TargetQuiz.Proofs.ExpressionPostorder

namespace TargetQuiz.Expression

theorem cons_subperm_iff {n : Int64} {ns available : List Int64} :
    (n :: ns).Subperm available ↔ n ∈ available ∧ ns.Subperm (available.erase n) := by
  constructor
  · intro h
    refine ⟨h.subset List.mem_cons_self, ?_⟩
    simpa using h.erase n
  · rintro ⟨hn, h⟩
    exact ((List.subperm_cons n).2 h).trans (List.perm_cons_erase hn).symm.subperm

/-- Typed numbers can be taken out of the available ones exactly when they are included in them,
each as often as it is typed. -/
theorem takeTyped_eq_ok_iff {typed available : List Int64} :
    takeTyped available typed = .ok () ↔ typed.Subperm available := by
  induction typed generalizing available with
  | nil => simp [takeTyped]
  | cons n ns ih =>
    rw [takeTyped, cons_subperm_iff, ← ih]
    by_cases hn : n ∈ available <;> simp [hn]

theorem checkOffer_eq_ok_iff {tokens : List Token} {allowed : List Int64} :
    checkOffer tokens allowed = .ok () ↔ (typedNumbers tokens).Subperm allowed :=
  takeTyped_eq_ok_iff

theorem tokenize_normalize (s : String) :
    tokenize (normalize s) = tokensOfChars (normalChars s.toList) := by
  simp [tokenize, normalize]

def Means (tokens : List Token) (t : Tree) : Prop := toPostorder tokens = .ok t.postorder

theorem Means.operands_eq {tokens : List Token} {t : Tree} (h : Means tokens t) :
    t.operands = operandsOf tokens := by
  rw [← operandsOf_postorder, operandsOf_toPostorder h]

theorem evalPostorder_toPostorder_eq_ok_iff {tokens : List Token} {value : Fraction} :
    (toPostorder tokens >>= evalPostorder) = .ok value ↔
      ∃ t, Means tokens t ∧ t.eval = .ok value := by
  constructor
  · intro h
    obtain ⟨out, hout, hvalue⟩ := bind_eq_ok_iff.1 h
    obtain ⟨t, rfl, ht⟩ := evalPostorder_eq_ok_iff.1 hvalue
    exact ⟨t, hout, ht⟩
  · rintro ⟨t, hmeans, ht⟩
    exact bind_eq_ok_iff.2 ⟨_, hmeans, evalPostorder_eq_ok_iff.2 ⟨t, rfl, ht⟩⟩

/-- The value of an answer is the value of the tree that its tokens mean. -/
theorem evaluateFreely_eq_ok_iff {answer : String} {value : Fraction} :
    evaluateFreely answer = .ok value ↔ ∃ tokens, tokenize (normalize answer) = .ok tokens ∧
      ∃ t, Means tokens t ∧ t.eval = .ok value := by
  simp only [tokenize_normalize, ← evalPostorder_toPostorder_eq_ok_iff]
  exact bind_eq_ok_iff

/-- An offer restricts the numbers that are typed and nothing else. -/
theorem evaluate_eq_ok_iff {answer : String} {allowed : List Int64} {value : Fraction} :
    evaluate answer allowed = .ok value ↔ ∃ tokens, tokenize (normalize answer) = .ok tokens ∧
      (typedNumbers tokens).Subperm allowed ∧ ∃ t, Means tokens t ∧ t.eval = .ok value := by
  simp only [tokenize_normalize, ← evalPostorder_toPostorder_eq_ok_iff, ← checkOffer_eq_ok_iff]
  refine bind_eq_ok_iff.trans (exists_congr fun tokens => and_congr_right fun _ => ?_)
  exact bind_eq_ok_iff.trans ⟨fun ⟨_, h⟩ => h, fun h => ⟨(), h⟩⟩

theorem evaluate_mono {answer : String} {allowed larger : List Int64} {value : Fraction}
    (h : evaluate answer allowed = .ok value) (hlarger : allowed.Subperm larger) :
    evaluate answer larger = .ok value := by
  obtain ⟨tokens, htokens, hoffer, hvalue⟩ := evaluate_eq_ok_iff.1 h
  exact evaluate_eq_ok_iff.2 ⟨tokens, htokens, hoffer.trans hlarger, hvalue⟩

end TargetQuiz.Expression

import TargetQuiz.Proofs.ChainShortest
import TargetQuiz.Proofs.ExpressionText

/-! The text of a chain is that of a parse tree: what stands on the left of an operator is a group,
and a first division of two numbers without a sign is a literal fraction. -/
namespace TargetQuiz.Chain

open Expression

def factorOf (n : Int64) : Infix .factor :=
  if n < 0 then .group (.product (.factor (.operand (.integer n)))) else .operand (.integer n)

def phrase : Chain → Infix .sum
  | start pick => .single (factorOf pick.1)
  | link (start pick) op next =>
    if op = .div ∧ 0 ≤ pick.1 ∧ 0 ≤ next.1 then .single (.operand (.ratio pick.1 next.1))
    else .joined op (factorOf pick.1) (factorOf next.1)
  | link chain op next => .joined op (.group chain.phrase) (factorOf next.1)

theorem phrase_link_link (chain : Chain) (op op' : Operator) (pick next : Pick) :
    (link (link chain op' pick) op next).phrase =
      .joined op (.group (link chain op' pick).phrase) (factorOf next.1) := rfl

theorem text_link_link (chain : Chain) (op op' : Operator) (pick next : Pick) :
    (link (link chain op' pick) op next).text =
      ['('] ++ (link chain op' pick).text ++ [')', op.symbol] ++ operandText next.1 := rfl

theorem value_link (chain : Chain) (op : Operator) (next : Pick) :
    (link chain op next).value =
      (chain.value >>= fun value => op.apply value (Fraction.whole next.1)) := rfl

theorem factorOf_text (n : Int64) : (factorOf n).text = operandText n := by
  unfold factorOf operandText
  split <;> rfl

theorem factorOf_tree (n : Int64) : (factorOf n).tree = .leaf (.integer n) := by
  unfold factorOf
  split <;> rfl

theorem factorOf_legible {n : Int64} (h : Int64.minValue < n) : (factorOf n).Legible := by
  unfold factorOf
  split <;> exact h

theorem operandText_of_nonneg {n : Int64} (h : 0 ≤ n) :
    operandText n = Numeral.ofInt n.toInt := if_neg (Int64.not_lt.2 h)

theorem phrase_text (chain : Chain) : chain.phrase.text = chain.text := by
  induction chain with
  | start pick => exact factorOf_text pick.1
  | link chain op next ih =>
    cases chain with
    | start pick =>
      rw [phrase, text]
      split
      · rename_i h
        obtain ⟨rfl, hpick, hnext⟩ := h
        rw [operandText_of_nonneg hpick, operandText_of_nonneg hnext, List.append_assoc]
        rfl
      · rw [Infix.joined_text, factorOf_text, factorOf_text]
        simp
    | link chain op' pick =>
      rw [phrase_link_link, text_link_link, Infix.joined_text, Infix.text, factorOf_text, ih]
      simp

theorem nonneg_of_endsInteger {n : Int64} (h : (factorOf n).endsInteger = true) : 0 ≤ n := by
  by_contra hn
  rw [factorOf, if_pos (Int64.not_le.1 hn)] at h
  simp [Infix.endsInteger] at h

theorem stops_factorOf {n : Int64} (h : n < 0) : Stops (factorOf n).text := by
  rw [factorOf, if_pos h]
  rfl

theorem operands_start (pick : Pick) : (start pick).operands = [pick.1] := rfl

theorem operands_link (chain : Chain) (op : Operator) (next : Pick) :
    (link chain op next).operands = chain.operands ++ [next.1] := by
  simp [operands, picks]

theorem phrase_legible {chain : Chain} (h : ∀ n ∈ chain.operands, Int64.minValue < n) :
    chain.phrase.Legible := by
  induction chain with
  | start pick => exact factorOf_legible (h pick.1 List.mem_cons_self)
  | link chain op next ih =>
    rw [operands_link, List.forall_mem_append] at h
    have hnext : Int64.minValue < next.1 := h.2 next.1 (by simp)
    cases chain with
    | start pick =>
      have hpick : Int64.minValue < pick.1 := h.1 pick.1 List.mem_cons_self
      rw [phrase]
      split
      · rename_i hquotient
        exact ⟨hpick, Int64.le_iff_toInt_le.1 hquotient.2.2⟩
      · rename_i hquotient
        refine Infix.joined_legible (factorOf_legible hpick) (factorOf_legible hnext) ?_
        intro hdiv hends
        refine stops_factorOf (Int64.not_le.1 fun hnonneg => hquotient ?_)
        exact ⟨hdiv, nonneg_of_endsInteger hends, hnonneg⟩
    | link chain op' pick =>
      rw [phrase_link_link]
      exact Infix.joined_legible (ih h.1) (factorOf_legible hnext) (by simp [Infix.endsInteger])

theorem div_whole (p q : Int64) :
    (Fraction.whole p).div (Fraction.whole q) = Fraction.ofWords p q := by
  simp [Fraction.div, Fraction.ofWords, Fraction.whole]

theorem eval_phrase (chain : Chain) :
    chain.phrase.tree.eval = chain.value.mapError EvalError.ofArithmetic := by
  induction chain with
  | start pick =>
    rw [phrase, Infix.single_tree, factorOf_tree]
    rfl
  | link chain op next ih =>
    cases chain with
    | start pick =>
      rw [phrase]
      split
      · rename_i h
        obtain ⟨rfl, _, _⟩ := h
        change (Fraction.ofWords pick.1 next.1).mapError _ =
          ((Fraction.whole pick.1).div (Fraction.whole next.1)).mapError _
        rw [div_whole]
      · rw [Infix.joined_tree, factorOf_tree, factorOf_tree]
        rfl
    | link chain op' pick =>
      rw [phrase_link_link, Infix.joined_tree, factorOf_tree, Tree.eval, Infix.tree, ih,
        value_link (link chain op' pick)]
      cases (link chain op' pick).value <;> rfl

/-- Numbers are typed once each, in the order of the chain and without their signs. -/
theorem typed_phrase (chain : Chain) :
    chain.phrase.tree.operands.flatMap Operand.typed = chain.operands.map magnitude := by
  induction chain with
  | start pick =>
    rw [phrase, Infix.single_tree, factorOf_tree, operands_start]
    rfl
  | link chain op next ih =>
    rw [operands_link, List.map_append]
    cases chain with
    | start pick =>
      rw [phrase, operands_start]
      split
      · rfl
      · rw [Infix.joined_tree, factorOf_tree, factorOf_tree]
        rfl
    | link chain op' pick =>
      rw [phrase_link_link, Infix.joined_tree, factorOf_tree, Infix.tree, Tree.operands,
        List.flatMap_append, ih]
      rfl

theorem map_magnitude_of_nonneg {numbers : List Int64} (h : ∀ n ∈ numbers, 0 ≤ n.toInt) :
    numbers.map magnitude = numbers := by
  rw [List.map_congr_left fun n hn => magnitude_of_nonneg (h n hn), List.map_id']

theorem evaluate_text {chain : Chain} {numbers : List Int64} {value : Fraction}
    (hnonneg : ∀ n ∈ chain.operands, 0 ≤ n.toInt) (hoffer : chain.operands.Subperm numbers)
    (hvalue : chain.value = .ok value) :
    evaluate (String.ofList chain.text) numbers = .ok value := by
  have hlegible : chain.phrase.Legible := phrase_legible fun n hn =>
    minValue_lt_of_nonneg (hnonneg n hn)
  rw [← phrase_text]
  refine chain.phrase.evaluate_text hlegible ?_ ?_
  · rwa [typed_phrase, map_magnitude_of_nonneg hnonneg]
  · rw [eval_phrase, hvalue]
    rfl

/-- The text of a chain reads back, also with negative numbers, unless the least word is among
them. -/
theorem evaluateFreely_text {chain : Chain} {value : Fraction}
    (hmin : ∀ n ∈ chain.operands, Int64.minValue < n) (hvalue : chain.value = .ok value) :
    evaluateFreely (String.ofList chain.text) = .ok value := by
  rw [← phrase_text]
  refine chain.phrase.evaluateFreely_text (phrase_legible hmin) ?_
  rw [eval_phrase, hvalue]
  rfl

theorem typedNumbers_text {chain : Chain} (hmin : ∀ n ∈ chain.operands, Int64.minValue < n) :
    ∃ tokens, tokenize (normalize (String.ofList chain.text)) = .ok tokens ∧
      typedNumbers tokens = chain.operands.map magnitude := by
  refine ⟨chain.phrase.tokens, ?_, ?_⟩
  · rw [← phrase_text]
    exact chain.phrase.tokenize_text (phrase_legible hmin)
  · rw [typedNumbers_eq, operandsOf_tokens, typed_phrase]

/-- A solution over numbers without a sign is an answer over these numbers. -/
theorem evaluate_of_searchWithin {numbers : List Int64} {target : Fraction} {limit : Nat}
    {solution : Solution} (hnonneg : ∀ n ∈ numbers, 0 ≤ n.toInt)
    (h : searchWithin numbers target limit = some solution) :
    evaluate solution.expression numbers = .ok target := by
  obtain ⟨chain, hsearch, rfl⟩ := Option.map_eq_some_iff.1 h
  obtain ⟨hvalue, hover, _⟩ := search?_sound hsearch
  have hoffer := hover.operands_subperm
  exact evaluate_text (fun n hn => hnonneg n (hoffer.subset hn)) hoffer hvalue

/-- Every solution that is found reads back as an answer. It has at least two operands and at most
as many as allowed; its value is the target and its typed numbers are the operands, in order and
without their signs, unless the least word is on offer; and when no number has a sign, it is an
answer over the numbers on offer whose typed numbers are the operands themselves. -/
theorem solution_readable {numbers : List Int64} {target : Fraction} {limit : Nat}
    {solution : Solution} (h : searchWithin numbers target limit = some solution) :
    2 ≤ solution.operands.length ∧ solution.operands.length ≤ limit ∧
      ((∀ n ∈ numbers, Int64.minValue < n) →
        evaluateFreely solution.expression = .ok target ∧
          ∃ tokens, tokenize (normalize solution.expression) = .ok tokens ∧
            typedNumbers tokens = solution.operands.map magnitude) ∧
      ((∀ n ∈ numbers, 0 ≤ n.toInt) →
        evaluate solution.expression numbers = .ok target ∧
          ∃ tokens, tokenize (normalize solution.expression) = .ok tokens ∧
            typedNumbers tokens = solution.operands) := by
  obtain ⟨chain, hsearch, rfl⟩ := Option.map_eq_some_iff.1 h
  obtain ⟨hvalue, hover, htwo, hlimit⟩ := search?_sound hsearch
  have hoffered := hover.operands_subperm.subset
  refine ⟨by simpa [solution, operands] using htwo, by simpa [solution, operands] using hlimit,
    fun hmin => ?_, fun hnonneg => ?_⟩
  · have hleast : ∀ n ∈ chain.operands, Int64.minValue < n := fun n hn => hmin n (hoffered hn)
    exact ⟨evaluateFreely_text hleast hvalue, typedNumbers_text hleast⟩
  · have hsigns : ∀ n ∈ chain.operands, 0 ≤ n.toInt := fun n hn => hnonneg n (hoffered hn)
    refine ⟨evaluate_of_searchWithin hnonneg h, ?_⟩
    rw [solution, ← map_magnitude_of_nonneg hsigns]
    exact typedNumbers_text fun n hn => minValue_lt_of_nonneg (hsigns n hn)

theorem solution_readable_ratio :
    ∃ solution, searchWithin [3, 8, 6] ⟨9, 4, by decide, by decide⟩ 3 = some solution ∧
      solution.operands.length ≤ 3 ∧
      evaluateFreely solution.expression = .ok ⟨9, 4, by decide, by decide⟩ ∧
      evaluate solution.expression [3, 8, 6] = .ok ⟨9, 4, by decide, by decide⟩ ∧
      ∃ tokens, tokenize (normalize solution.expression) = .ok tokens ∧
        typedNumbers tokens = solution.operands := by
  let quotient : Chain := .link (.link (.start (3, 0)) .div (8, 1)) .mul (6, 2)
  have hover : quotient.Over ([3, 8, 6] : List Int64).zipIdx := ⟨by decide, by decide⟩
  have hvalue : quotient.value = .ok ⟨9, 4, by decide, by decide⟩ := by decide +kernel
  have hlength : quotient.picks.length ≤ 3 := by decide
  obtain ⟨found, hfound, _⟩ := search?_complete (by decide) hover hvalue (by decide) hlength
  have h : searchWithin [3, 8, 6] ⟨9, 4, by decide, by decide⟩ 3 = some found.solution := by
    rw [searchWithin, hfound, Option.map_some]
  obtain ⟨-, hlimit, hfree, hoffered⟩ := solution_readable h
  have hnonneg : ∀ n ∈ ([3, 8, 6] : List Int64), 0 ≤ n.toInt := by simp
  have hmin : ∀ n ∈ ([3, 8, 6] : List Int64), Int64.minValue < n :=
    fun n hn => minValue_lt_of_nonneg (hnonneg n hn)
  exact ⟨found.solution, h, hlimit, (hfree hmin).1, hoffered hnonneg⟩

end TargetQuiz.Chain

import TargetQuiz.Proofs.ChainText
import TargetQuiz.Proofs.PuzzleDecomposition
import TargetQuiz.Proofs.PuzzleDraw

namespace TargetQuiz.Puzzle

open Expression

theorem Seeded.evaluate {max : Int64} {avoid : Option Int64} {count : Nat} {target : Fraction}
    {base : Base} (h : Seeded max avoid count target base) :
    evaluate base.solution base.numbers = .ok target := by
  obtain ⟨solution, hfound, hsolution⟩ := h.found
  rw [hsolution]
  exact Chain.evaluate_of_searchWithin (fun n hn => Int.le_of_lt (h.drawn n hn).pos) hfound

theorem Decomposed.evaluate {target : Fraction} {cap : Int64} {base : Base}
    (htarget : 0 ≤ target.num.toInt) (h : Decomposed target cap base) :
    evaluate base.solution base.numbers = .ok target := by
  obtain ⟨filler, hnumbers, _⟩ := h.numbers
  have hleast : Int64.minValue.toInt + 2 ≤ target.num.toInt :=
    Int.le_trans (by decide) htarget
  rw [h.solution, hnumbers]
  exact evaluate_mono (Decomposition.evaluate_decompose hleast cap)
    (List.sublist_append_left _ _).subperm

theorem Made.evaluate {tier : Tier} {g : Generator} {p : Puzzle} {base : Base}
    (h : Made tier g p base) : evaluate base.solution base.numbers = .ok p.target := by
  obtain ⟨next, hsampled⟩ := h.sampled
  obtain ⟨before, after, hdrawn⟩ := h.drawn
  rcases drawBase_eq_some hdrawn with ⟨count, _, _, hseeded⟩ | hdecomposed
  · exact hseeded.evaluate
  · exact hdecomposed.evaluate (sampleTarget_num_nonneg hsampled)

/-- Whenever a puzzle is made, the solution kept with it is accepted for the numbers on offer, with
the target as its value and no reason to reject it. -/
theorem solution_accepted {tier : Tier} {g g' : Generator} {p : Puzzle}
    (h : generate tier g = some (p, g')) :
    evaluate p.solution p.numbers = .ok p.target ∧
      checkAnswer p.solution p.numbers p.target = ⟨true, some p.target, none⟩ := by
  obtain ⟨base, hmade⟩ := generate_eq_some h
  have hvalue : Expression.evaluate p.solution p.numbers = .ok p.target := by
    rw [hmade.solution]
    exact evaluate_mono hmade.evaluate hmade.numbers_subperm
  refine ⟨hvalue, ?_⟩
  simp [checkAnswer, hvalue]

theorem solution_accepted_quotient :
    ∃ p g', generate .medium (Generator.ofSeed 40) = some (p, g') ∧
      evaluate p.solution p.numbers = .ok p.target ∧
      checkAnswer p.solution p.numbers p.target = ⟨true, some p.target, none⟩ := by
  let quarter : Fraction := ⟨1, 4, by decide, by decide⟩
  let g₁ : Generator := ⟨7009970732604939446, 15291539747008325250⟩
  let g₂ : Generator := ⟨10775068813040464479, 9223168174885940109⟩
  let g₃ : Generator := ⟨12842941980948366727, 1884627924193951216⟩
  have htarget : sampleTarget .medium (Generator.ofSeed 40) = some (quarter, g₁) := by
    decide +kernel
  have hcount : g₁.between Tier.medium.params.seedCount.lo Tier.medium.params.seedCount.hi =
      (2, g₂) := by
    decide +kernel
  have hseeds : Generator.draws (drawAvoiding Tier.medium.params.seedMax (wholeTarget? quarter))
      (2 : Int64).toInt.toNat g₂ = some ([3, 12], g₃) := by
    decide +kernel
  have hsearch : Chain.deepen [(3, 0), (12, 1)] quarter 1
      [.ofPick (3, 0), .ofPick (12, 1)] =
      some ⟨.link (.start (3, 0)) .div (12, 1), quarter, 3⟩ := by
    -- Hashes do not reduce, so the table of keys has to go before the level is computed.
    rw [Chain.deepen, Chain.nextLevel, Chain.firstOfKey_eq]
    decide +kernel
  have hfound : findSolution [3, 12] quarter = some ⟨"3/12", [3, 12]⟩ := by
    change ((Chain.deepen [(3, 0), (12, 1)] quarter 1 [.ofPick (3, 0), .ofPick (12, 1)]).map
      (·.chain)).map Chain.solution = _
    rw [hsearch]
    decide
  have hbase : drawBase .medium quarter g₁ = some (⟨[3, 12], "3/12", false⟩, g₃) :=
    drawBase_of_found hcount hseeds hfound
  obtain ⟨p, g', h, _⟩ := exists_generate htarget hbase rfl (by decide +kernel)
  exact ⟨p, g', h, solution_accepted h⟩

end TargetQuiz.Puzzle

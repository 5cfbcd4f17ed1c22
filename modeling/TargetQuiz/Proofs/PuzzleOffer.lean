import TargetQuiz.Proofs.ChainSearch
import TargetQuiz.Proofs.PuzzleDecomposition
import TargetQuiz.Proofs.PuzzleDraw

namespace TargetQuiz.Puzzle

open Generator

def Offerable (avoid : Option Int64) (n : Int64) : Prop := 0 < n.toInt ∧ some n ≠ avoid

theorem Drawn.offerable {max : Int64} {avoid : Option Int64} {n : Int64}
    (h : Drawn max avoid n) (hmax : ¬max ≤ 1) : Offerable avoid n :=
  ⟨h.pos, h.ne.resolve_right hmax⟩

theorem drawNoise_pos (max : Int64) (numbers : List Int64) (redraws : Nat) (g : Generator) :
    0 < (drawNoise max numbers redraws g).1.toInt := by
  induction redraws generalizing g with
  | zero => exact (between_bounds 1 max (by decide) g).1
  | succ redraws ih =>
    simp only [drawNoise]
    split
    · exact ih _
    · exact (between_bounds 1 max (by decide) g).1

theorem substitutes_offerable {t a : Int64} (h : a ∈ substitutes t) : Offerable (some t) a := by
  have hclamp : ∀ hi n : Int, 1 ≤ hi → hi ≤ 20 → 0 < (Int64.ofInt (clamp 1 hi n)).toInt := by
    intro hi n hlo hhi
    have hbounds : 1 ≤ clamp 1 hi n ∧ clamp 1 hi n ≤ 20 := by
      unfold clamp
      omega
    rw [Int64.toInt_ofInt_of_le (by omega) (by omega)]
    omega
  simp only [substitutes, List.mem_filter, decide_eq_true_eq, List.mem_cons, List.not_mem_nil,
    or_false] at h
  obtain ⟨hform, hne⟩ := h
  refine ⟨?_, by simpa using hne⟩
  rcases hform with rfl | rfl
  · exact hclamp _ _ (by decide) (by decide)
  · exact hclamp _ _ (by decide) (by decide)

theorem addNoise_offerable {max : Int64} {avoid : Option Int64} {room : Nat}
    {numbers filled : List Int64} {g g' : Generator}
    (h : addNoise max avoid room numbers g = some (filled, g'))
    (hnumbers : ∀ n ∈ numbers, Offerable avoid n) : ∀ n ∈ filled, Offerable avoid n := by
  fun_induction addNoise max avoid room numbers g with
  | case1 numbers g =>
    cases h
    exact hnumbers
  | case2 numbers g room n next hdraw havoid hnone ih =>
    obtain ⟨⟨n', next'⟩, hn', h⟩ := Option.bind_eq_some_iff.1 h
    refine ih n' next' h (List.forall_mem_append.2 ⟨hnumbers, ?_⟩)
    have hchoice : ¬(if max < 2 then 2 else max) ≤ 1 := by
      split
      · decide
      · rename_i hmax
        intro hone
        exact hmax (Int64.lt_of_le_of_lt hone (by decide))
    simpa using (drawAvoiding_eq_some hn').offerable hchoice
  | case3 numbers g room n next hdraw havoid a rest hsome ih =>
    refine ih h (List.forall_mem_append.2 ⟨hnumbers, ?_⟩)
    intro b hb
    rw [← hsome] at hb
    rw [← havoid]
    exact substitutes_offerable (List.mem_of_mem_take hb)
  | case4 numbers g room n next hdraw havoid ih =>
    refine ih h (List.forall_mem_append.2 ⟨hnumbers, ?_⟩)
    have hpos := drawNoise_pos max numbers noiseRedraws g
    rw [hdraw] at hpos
    simpa using ⟨hpos, havoid⟩

theorem wholeTarget?_eq_some_iff {target : Fraction} {n : Int64} :
    wholeTarget? target = some n ↔ target.isWhole = true ∧ target.num = n := by
  simp [wholeTarget?]

theorem ne_of_mem_ofWhole {t n : Int64} (ht : 0 ≤ t.toInt)
    (h : n ∈ (Decomposition.ofWhole t.toInt).numbers) : n ≠ t := by
  rintro rfl
  have hlt := n.toInt_lt
  have hmax := Int64.toInt_maxValue
  unfold Decomposition.ofWhole at h
  split at h
  · rename_i hbig
    obtain ⟨ha, hb, hsum⟩ := Decomposition.splitWhole_spec hbig
    have hfa : Decomposition.Fits (Decomposition.splitWhole n.toInt).1 := ⟨ha, by omega⟩
    have hfb : Decomposition.Fits (Decomposition.splitWhole n.toInt).2 := ⟨hb, by omega⟩
    simp only [Decomposition.ofInts, List.map_cons, List.map_nil, List.mem_cons,
      List.not_mem_nil, or_false, ← Int64.toInt_inj, hfa.toInt_ofInt, hfb.toInt_ofInt] at h
    omega
  · split at h
    · rename_i hone
      simp only [Decomposition.ofInts, List.map_cons, List.map_nil, List.mem_cons,
        List.not_mem_nil, or_false, or_self] at h
      rw [h] at hone
      exact absurd hone (by decide)
    · have hzero : n.toInt = 0 := by omega
      have hn : n = 0 := Int64.toInt_inj.1 hzero
      subst hn
      exact absurd h (by decide)

theorem decompose_offerable {target : Fraction} (hnum : 0 ≤ target.num.toInt) (cap : Int64) :
    ∀ n ∈ (target.decompose cap).numbers, Offerable (wholeTarget? target) n := by
  intro n hn
  obtain ⟨e, hspells⟩ := Decomposition.exists_spells (f := target)
    (Int.le_trans (by decide) hnum) cap
  refine ⟨hspells.positive n hn, ?_⟩
  intro havoid
  obtain ⟨hwhole, rfl⟩ := wholeTarget?_eq_some_iff.1 havoid.symm
  rw [Fraction.decompose, if_pos hwhole] at hn
  exact ne_of_mem_ofWhole hnum hn rfl

theorem drawBase_offerable {tier : Tier} {target : Fraction} {g g' : Generator} {base : Base}
    (hnum : 0 ≤ target.num.toInt) (h : drawBase tier target g = some (base, g')) :
    ∀ n ∈ base.numbers, Offerable (wholeTarget? target) n := by
  rcases drawBase_eq_some h with ⟨count, _, _, hseeded⟩ | hdecomposed
  · intro n hn
    exact (hseeded.drawn n hn).offerable (by cases tier <;> decide)
  · obtain ⟨filler, hnumbers, hfiller⟩ := hdecomposed.numbers
    rw [hnumbers, List.forall_mem_append]
    refine ⟨decompose_offerable hnum _, ?_⟩
    simpa using hfiller.offerable (by decide)

/-- Exactly the targets of the easy tier are whole. -/
theorem sampleTarget_isWhole_iff {tier : Tier} {g g' : Generator} {target : Fraction}
    (h : sampleTarget tier g = some (target, g')) : target.isWhole = true ↔ tier = .easy := by
  obtain ⟨haccepted, before, hdraw⟩ := drawUntil_eq_some h
  cases tier with
  | easy =>
    cases hdraw
    exact ⟨fun _ => rfl, fun _ => rfl⟩
  | medium => simpa [Tier.needsFraction] using haccepted
  | hard => simpa [Tier.needsFraction] using haccepted

theorem Steps.offerable {tier : Tier} {g : Generator} {p : Puzzle} {base : Base} {size : Int64}
    {filled : List Int64} (h : Steps tier g p base size filled) :
    ∀ n ∈ p.numbers, Offerable (wholeTarget? p.target) n := by
  obtain ⟨before, after, htarget, hbase⟩ := h.drawn
  obtain ⟨_, _, hfilled⟩ := h.padded
  intro n hn
  exact addNoise_offerable hfilled (drawBase_offerable (sampleTarget_num_nonneg htarget) hbase) n
    (h.offered.subset hn)

theorem Steps.length_bounds {tier : Tier} {g : Generator} {p : Puzzle} {base : Base}
    {size : Int64} {filled : List Int64} (h : Steps tier g p base size filled) :
    tier.params.setSize.lo.toInt ≤ p.numbers.length ∧
      p.numbers.length ≤ tier.params.setSize.hi.toInt := by
  obtain ⟨_, _, _, hbase⟩ := h.drawn
  have hfew := drawBase_length_le hbase
  have hleast : 5 ≤ tier.params.setSize.lo.toInt := by cases tier <;> decide
  have hlength := h.length_eq
  have hlo := h.least
  have hhi := h.most
  omega

/-- What is on offer when a puzzle is made. The size is one of the tier, all numbers are positive,
the numbers drawn to reach the target are there, each as often as it was drawn, be they seeds or a
decomposition with a filler, and the target is not there when it is whole, as it is on the easy
tier. -/
theorem offered_numbers {tier : Tier} {g g' : Generator} {p : Puzzle}
    (h : generate tier g = some (p, g')) :
    (tier.params.setSize.lo.toInt ≤ p.numbers.length ∧
      p.numbers.length ≤ tier.params.setSize.hi.toInt) ∧
    (∀ n ∈ p.numbers, 0 < n.toInt) ∧
    (∃ between base after, sampleTarget tier g = some (p.target, between) ∧
      drawBase tier p.target between = some (base, after) ∧ base.numbers.Subperm p.numbers ∧
      p.usedFallback = base.usedFallback ∧
      ((∃ count, Seeded tier.params.seedMax (wholeTarget? p.target) count p.target base) ∨
        Decomposed p.target tier.params.denominatorCap base)) ∧
    (p.target.isWhole = true ↔ tier = .easy) ∧
    (p.target.isWhole = true → p.target.num ∉ p.numbers) := by
  obtain ⟨base, size, filled, hsteps⟩ := generate_steps h
  obtain ⟨between, after, htarget, hbase⟩ := hsteps.drawn
  refine ⟨hsteps.length_bounds, fun n hn => (hsteps.offerable n hn).1, ?_,
    sampleTarget_isWhole_iff htarget, ?_⟩
  · refine ⟨between, base, after, htarget, hbase, hsteps.made.numbers_subperm,
      hsteps.usedFallback, ?_⟩
    rcases drawBase_eq_some hbase with ⟨count, _, _, hseeded⟩ | hdecomposed
    · exact .inl ⟨_, hseeded⟩
    · exact .inr hdecomposed
  · intro hwhole hmem
    exact (hsteps.offerable _ hmem).2 (wholeTarget?_eq_some_iff.2 ⟨hwhole, rfl⟩).symm

theorem generate_ofSeed_49 :
    ∃ p g', generate .easy (Generator.ofSeed 49) = some (p, g') ∧
      p.target = Fraction.whole 4 := by
  let g₁ : Generator := ⟨15679533748041331204, 16861215771167500035⟩
  let g₂ : Generator := ⟨1760415302182047203, 14768043038022227662⟩
  let g₃ : Generator := ⟨5464659246651938351, 1906915208155882797⟩
  let picks : List Pick := [(6, 0), (7, 1), (3, 2)]
  have htarget : sampleTarget .easy (Generator.ofSeed 49) = some (Fraction.whole 4, g₁) := by
    decide +kernel
  have hcount : g₁.between Tier.easy.params.seedCount.lo Tier.easy.params.seedCount.hi =
      (3, g₂) := by
    decide +kernel
  have hseeds : draws (drawAvoiding Tier.easy.params.seedMax (wholeTarget? (Fraction.whole 4)))
      (3 : Int64).toInt.toNat g₂ = some ([6, 7, 3], g₃) := by
    decide +kernel
  have hsearch : Chain.deepen picks (Fraction.whole 4) 2 (picks.map Chain.Reached.ofPick) =
      some ⟨.link (.start (7, 1)) .sub (3, 2), Fraction.whole 4, 6⟩ := by
    rw [Chain.deepen, Chain.nextLevel, Chain.firstOfKey_eq]
    decide +kernel
  have hfound : findSolution [6, 7, 3] (Fraction.whole 4) = some ⟨"7-3", [7, 3]⟩ := by
    change ((Chain.deepen picks (Fraction.whole 4) 2 (picks.map Chain.Reached.ofPick)).map
      (·.chain)).map Chain.solution = _
    rw [hsearch]
    decide
  have hbase : drawBase .easy (Fraction.whole 4) g₁ = some (⟨[6, 7, 3], "7-3", false⟩, g₃) :=
    drawBase_of_found hcount hseeds hfound
  obtain ⟨p, g', h, hp, _⟩ := exists_generate htarget hbase rfl (by decide +kernel)
  exact ⟨p, g', h, hp⟩

/-- A puzzle in which noise hits the target, so that other numbers stand in for it. -/
theorem offered_numbers_replaced :
    ∃ p g', generate .easy (Generator.ofSeed 49) = some (p, g') ∧ p.target = Fraction.whole 4 ∧
      (5 ≤ p.numbers.length ∧ p.numbers.length ≤ 7) ∧ (∀ n ∈ p.numbers, 0 < n.toInt) ∧
      4 ∉ p.numbers := by
  obtain ⟨p, g', h, hp⟩ := generate_ofSeed_49
  obtain ⟨⟨hleast, hmost⟩, hpos, _, _, hnot⟩ := offered_numbers h
  have hlo : Tier.easy.params.setSize.lo.toInt = 5 := by decide
  have hhi : Tier.easy.params.setSize.hi.toInt = 7 := by decide
  rw [hp] at hnot
  exact ⟨p, g', h, hp, ⟨by omega, by omega⟩, hpos, hnot rfl⟩

end TargetQuiz.Puzzle

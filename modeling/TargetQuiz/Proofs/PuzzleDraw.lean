import Mathlib.Data.List.Perm.Subperm
import TargetQuiz.Proofs.PuzzleTarget
import TargetQuiz.Puzzle.Basic

namespace TargetQuiz.Puzzle

open Generator

theorem sampleTarget_num_nonneg {tier : Tier} {g g' : Generator} {target : Fraction}
    (h : sampleTarget tier g = some (target, g')) : 0 ≤ target.num.toInt := by
  rw [sampleTarget_eq_drawCandidate, Option.some.injEq] at h
  have hpos := (drawCandidate_suits tier g).2.pos
  rw [h] at hpos
  rw [← Fraction.toRat_num]
  exact Rat.num_nonneg.2 hpos.le

/-- A number from one to `max` that is not the one to avoid, unless there is no other. -/
structure Drawn (max : Int64) (avoid : Option Int64) (n : Int64) : Prop where
  pos : 0 < n.toInt
  le : n.toInt ≤ Max.max 1 max.toInt
  ne : some n ≠ avoid ∨ max ≤ 1

theorem drawAvoiding_eq_some {max : Int64} {avoid : Option Int64} {g g' : Generator} {n : Int64}
    (h : drawAvoiding max avoid g = some (n, g')) : Drawn max avoid n := by
  obtain ⟨haccepted, before, hdraw⟩ := drawUntil_eq_some h
  have hbounds := between_bounds 1 max (by decide) before
  rw [hdraw] at hbounds
  have hone : (1 : Int64).toInt = 1 := by decide
  rw [hone] at hbounds
  exact ⟨hbounds.1, hbounds.2, by simpa using haccepted⟩

/-- Seeds are drawn numbers over which the search finds the solution that is kept. -/
structure Seeded (max : Int64) (avoid : Option Int64) (count : Nat) (target : Fraction)
    (base : Base) : Prop where
  length : base.numbers.length = count
  drawn : ∀ n ∈ base.numbers, Drawn max avoid n
  found : ∃ solution, findSolution base.numbers target = some solution ∧
    base.solution = solution.expression
  usedFallback : base.usedFallback = false

theorem searchSeeds_eq_some {target : Fraction} {max : Int64} {count attempts : Nat}
    {g g' : Generator} {base : Base}
    (h : searchSeeds target max count attempts g = some (some base, g')) :
    Seeded max (wholeTarget? target) count target base := by
  induction attempts generalizing g with
  | zero => cases h
  | succ attempts ih =>
    obtain ⟨⟨seeds, next⟩, hdraws, hnext⟩ := Option.bind_eq_some_iff.1 h
    dsimp only at hnext
    split at hnext
    · rename_i solution hfound
      cases hnext
      obtain ⟨hlength, hdrawn⟩ := draws_eq_some drawAvoiding_eq_some hdraws
      exact ⟨hlength, hdrawn, ⟨solution, hfound, rfl⟩, rfl⟩
    · exact ih hnext

structure Decomposed (target : Fraction) (cap : Int64) (base : Base) : Prop where
  numbers : ∃ filler, base.numbers = (target.decompose cap).numbers ++ [filler] ∧
    Drawn fillerMax (wholeTarget? target) filler
  solution : base.solution = String.ofList (target.decompose cap).text
  usedFallback : base.usedFallback = true

theorem decomposed_eq_some {target : Fraction} {cap : Int64} {g g' : Generator} {base : Base}
    (h : decomposed target cap g = some (base, g')) : Decomposed target cap base := by
  obtain ⟨⟨filler, next⟩, hfiller, hnext⟩ := Option.bind_eq_some_iff.1 h
  cases hnext
  exact ⟨⟨filler, rfl, drawAvoiding_eq_some hfiller⟩, rfl, rfl⟩

/-- The numbers that reach the target come from one of the two sources. -/
theorem drawBase_eq_some {tier : Tier} {target : Fraction} {g g' : Generator} {base : Base}
    (h : drawBase tier target g = some (base, g')) :
    (∃ count : Int64, tier.params.seedCount.lo.toInt ≤ count.toInt ∧
      count.toInt ≤ tier.params.seedCount.hi.toInt ∧
      Seeded tier.params.seedMax (wholeTarget? target) count.toInt.toNat target base) ∨
    Decomposed target tier.params.denominatorCap base := by
  obtain ⟨⟨base?, next⟩, hsearch, hnext⟩ := Option.bind_eq_some_iff.1 h
  cases base? with
  | some found =>
    cases hnext
    have hspan : tier.params.seedCount.lo.toInt ≤ tier.params.seedCount.hi.toInt := by
      cases tier <;> decide
    obtain ⟨hlo, hhi⟩ := between_bounds_of_le _ _ (by cases tier <;> decide) hspan g
    exact .inl ⟨_, hlo, hhi, searchSeeds_eq_some hsearch⟩
  | none => exact .inr (decomposed_eq_some hnext)

theorem drawBase_of_found {tier : Tier} {target : Fraction} {count : Int64}
    {seeds : List Int64} {solution : Solution} {g g' g'' : Generator}
    (hcount : g.between tier.params.seedCount.lo tier.params.seedCount.hi = (count, g'))
    (hseeds : draws (drawAvoiding tier.params.seedMax (wholeTarget? target)) count.toInt.toNat g' =
      some (seeds, g''))
    (hfound : findSolution seeds target = some solution) :
    drawBase tier target g = some (⟨seeds, solution.expression, false⟩, g'') := by
  simp only [drawBase, hcount, seedRetries, searchSeeds, hseeds, hfound, Option.bind_eq_bind,
    Option.bind_some]
  rfl

theorem addNoise_eq_some {max : Int64} {avoid : Option Int64} {room : Nat}
    {numbers filled : List Int64} {g g' : Generator}
    (h : addNoise max avoid room numbers g = some (filled, g')) : numbers <+: filled := by
  fun_induction addNoise max avoid room numbers g with
  | case1 numbers g =>
    cases h
    exact List.prefix_refl _
  | case2 numbers g room n next hdraw havoid hnone ih =>
    obtain ⟨⟨n', next'⟩, _, h⟩ := Option.bind_eq_some_iff.1 h
    exact (List.prefix_append _ _).trans (ih n' next' h)
  | case3 numbers g room n next hdraw havoid a rest hsome ih =>
    exact (List.prefix_append _ _).trans (ih h)
  | case4 numbers g room n next hdraw havoid ih => exact (List.prefix_append _ _).trans (ih h)

/-- Noise fills the room, and no more than the room. -/
theorem addNoise_length {max : Int64} {avoid : Option Int64} {room : Nat}
    {numbers filled : List Int64} {g g' : Generator}
    (h : addNoise max avoid room numbers g = some (filled, g')) :
    filled.length = numbers.length + room := by
  fun_induction addNoise max avoid room numbers g with
  | case1 numbers g =>
    cases h
    rfl
  | case2 numbers g room n next hdraw havoid hnone ih =>
    obtain ⟨⟨n', next'⟩, _, h⟩ := Option.bind_eq_some_iff.1 h
    have hrest := ih n' next' h
    rw [List.length_append, List.length_singleton] at hrest
    omega
  | case3 numbers g room n next hdraw havoid a rest hsome ih =>
    have hrest := ih h
    have htaken := congrArg List.length hsome
    rw [List.length_append, List.length_cons] at hrest
    rw [List.length_take, List.length_cons] at htaken
    omega
  | case4 numbers g room n next hdraw havoid ih =>
    have hrest := ih h
    rw [List.length_append, List.length_singleton] at hrest
    omega

structure Steps (tier : Tier) (g : Generator) (p : Puzzle) (base : Base) (size : Int64)
    (filled : List Int64) : Prop where
  drawn : ∃ between after, sampleTarget tier g = some (p.target, between) ∧
    drawBase tier p.target between = some (base, after)
  least : tier.params.setSize.lo.toInt ≤ size.toInt
  most : size.toInt ≤ tier.params.setSize.hi.toInt
  padded : ∃ before after, addNoise tier.params.noiseMax (wholeTarget? p.target)
    (size.toInt.toNat - base.numbers.length) base.numbers before = some (filled, after)
  offered : p.numbers.Perm filled
  approx : p.approx = p.target.approximate
  solution : p.solution = base.solution
  usedFallback : p.usedFallback = base.usedFallback

theorem generate_steps {tier : Tier} {g g' : Generator} {p : Puzzle}
    (h : generate tier g = some (p, g')) : ∃ base size filled, Steps tier g p base size filled := by
  obtain ⟨⟨target, g₁⟩, htarget, h⟩ := Option.bind_eq_some_iff.1 h
  obtain ⟨⟨base, g₂⟩, hbase, h⟩ := Option.bind_eq_some_iff.1 h
  obtain ⟨⟨filled, g₃⟩, hfilled, h⟩ := Option.bind_eq_some_iff.1 h
  have hspan : tier.params.setSize.lo.toInt ≤ tier.params.setSize.hi.toInt := by
    cases tier <;> decide
  obtain ⟨hlo, hhi⟩ := between_bounds_of_le _ _ (by cases tier <;> decide) hspan g₂
  cases h
  exact ⟨base, _, filled, ⟨g₁, g₂, htarget, hbase⟩, hlo, hhi, ⟨_, g₃, hfilled⟩,
    shuffle_perm filled g₃, rfl, rfl, rfl⟩

/-- Once the base is drawn, there is a puzzle when the noise has a result. -/
theorem exists_generate {tier : Tier} {target : Fraction} {g between after next : Generator}
    {base : Base} {size : Int64} (htarget : sampleTarget tier g = some (target, between))
    (hbase : drawBase tier target between = some (base, after))
    (hsize : after.between tier.params.setSize.lo tier.params.setSize.hi = (size, next))
    (hnoise : (addNoise tier.params.noiseMax (wholeTarget? target)
      (size.toInt.toNat - base.numbers.length) base.numbers next).isSome = true) :
    ∃ p g', generate tier g = some (p, g') ∧ p.target = target ∧
      p.usedFallback = base.usedFallback := by
  obtain ⟨⟨numbers, last⟩, hnoise⟩ := Option.isSome_iff_exists.1 hnoise
  simp only [generate, htarget, hbase, hsize, hnoise, Option.bind_eq_bind, Option.bind_some]
  exact ⟨_, _, rfl, rfl, rfl⟩

structure Made (tier : Tier) (g : Generator) (p : Puzzle) (base : Base) : Prop where
  sampled : ∃ next, sampleTarget tier g = some (p.target, next)
  drawn : ∃ before after, drawBase tier p.target before = some (base, after)
  offered : ∃ noise, p.numbers.Perm (base.numbers ++ noise)
  solution : p.solution = base.solution
  usedFallback : p.usedFallback = base.usedFallback

theorem Steps.made {tier : Tier} {g : Generator} {p : Puzzle} {base : Base} {size : Int64}
    {filled : List Int64} (h : Steps tier g p base size filled) : Made tier g p base := by
  obtain ⟨before, after, htarget, hbase⟩ := h.drawn
  obtain ⟨_, _, hfilled⟩ := h.padded
  obtain ⟨noise, rfl⟩ := addNoise_eq_some hfilled
  exact ⟨⟨before, htarget⟩, ⟨before, after, hbase⟩, ⟨noise, h.offered⟩, h.solution,
    h.usedFallback⟩

theorem generate_eq_some {tier : Tier} {g g' : Generator} {p : Puzzle}
    (h : generate tier g = some (p, g')) : ∃ base, Made tier g p base := by
  obtain ⟨base, size, filled, hsteps⟩ := generate_steps h
  exact ⟨base, hsteps.made⟩

theorem Made.numbers_subperm {tier : Tier} {g : Generator} {p : Puzzle} {base : Base}
    (h : Made tier g p base) : base.numbers.Subperm p.numbers := by
  obtain ⟨noise, hperm⟩ := h.offered
  exact (List.sublist_append_left _ _).subperm.trans hperm.symm.subperm

theorem drawBase_length_le {tier : Tier} {target : Fraction} {g g' : Generator} {base : Base}
    (h : drawBase tier target g = some (base, g')) : base.numbers.length ≤ 5 := by
  rcases drawBase_eq_some h with ⟨count, _, hcount, hseeded⟩ | hdecomposed
  · have hmost : tier.params.seedCount.hi.toInt ≤ 4 := by cases tier <;> decide
    rw [hseeded.length]
    omega
  · obtain ⟨filler, hnumbers, _⟩ := hdecomposed.numbers
    have hlength := target.length_decompose tier.params.denominatorCap
    rw [hnumbers, List.length_append, List.length_singleton]
    omega

/-- The offer has the size that is drawn, or that of the numbers that reach the target. -/
theorem Steps.length_eq {tier : Tier} {g : Generator} {p : Puzzle} {base : Base} {size : Int64}
    {filled : List Int64} (h : Steps tier g p base size filled) :
    p.numbers.length = max base.numbers.length size.toInt.toNat := by
  obtain ⟨_, _, hfilled⟩ := h.padded
  rw [h.offered.length_eq, addNoise_length hfilled]
  omega

end TargetQuiz.Puzzle

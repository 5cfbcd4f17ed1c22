import Mathlib.Tactic.Ring
import TargetQuiz.Proofs.ChainShortest
import TargetQuiz.Proofs.ChainText
import TargetQuiz.Proofs.PuzzleDecomposition
import TargetQuiz.Proofs.PuzzleDraw

/-! The offer of a puzzle has a chain of at most four numbers that reaches the target. For a
decomposition the fraction comes first and the whole addends follow, since a chain has no second
group. -/
namespace TargetQuiz.Chain

theorem exists_picks_eq {chain : Chain} {ps : List Pick} (h : ps.map (·.1) = chain.operands) :
    ∃ other : Chain, other.picks = ps ∧ other.value = chain.value := by
  induction chain generalizing ps with
  | start pick =>
    obtain ⟨p, rfl, hp⟩ := List.map_eq_singleton_iff.1 h
    exact ⟨.start p, rfl, by simp [value, hp]⟩
  | link chain op pick ih =>
    rw [operands_link, List.map_eq_append_iff] at h
    obtain ⟨before, last, rfl, hbefore, hlast⟩ := h
    obtain ⟨p, rfl, hp⟩ := List.map_eq_singleton_iff.1 hlast
    obtain ⟨other, hpicks, hvalue⟩ := ih hbefore
    refine ⟨.link other op p, ?_, ?_⟩
    · rw [picks, hpicks]
    · rw [value_link, value_link, hvalue, hp]

theorem exists_picks_of_subperm {operands numbers : List Int64} (h : operands.Subperm numbers) :
    ∃ ps : List Pick, ps.map (·.1) = operands ∧ (∀ p ∈ ps, p ∈ numbers.zipIdx) ∧
      (ps.map (·.2)).Nodup := by
  obtain ⟨part, hperm, hsublist⟩ := h
  rw [← List.zipIdx_map_fst 0 numbers, List.sublist_map_iff] at hsublist
  obtain ⟨picked, hpicked, rfl⟩ := hsublist
  have hcomp := congrFun (congrFun (List.eq_map_comp_perm Prod.fst) operands) picked
  obtain ⟨ps, hps, hsame⟩ := hcomp.mpr hperm.symm
  refine ⟨ps, hps.symm, ?_, ?_⟩
  · intro p hp
    exact hpicked.subset (hsame.subset hp)
  · have hpositions : (numbers.zipIdx.map (·.2)).Nodup := by
      rw [List.zipIdx_map_snd]
      exact List.nodup_range'
    exact (hsame.map _).nodup_iff.2 (hpositions.sublist (hpicked.map _))

def Makes (numbers : List Int64) (value : Fraction) : Prop :=
  ∃ chain : Chain, chain.operands = numbers ∧ chain.value = .ok value

theorem makes_pair {op : Operator} {a b : Int64} {value : Fraction}
    (h : op.exact a.toInt b.toInt = some value.toRat) : Makes [a, b] value := by
  refine ⟨.link (.start (a, 0)) op (b, 1), rfl, ?_⟩
  refine bind_eq_ok_iff.2 ⟨Fraction.whole a, rfl, Operator.apply_eq_ok_iff.2 ?_⟩
  rwa [Fraction.toRat_whole, Fraction.toRat_whole]

theorem Makes.link {numbers : List Int64} {op : Operator} {v w : Fraction} {n : Int64}
    (hmakes : Makes numbers v) (h : op.exact v.toRat n.toInt = some w.toRat) :
    Makes (numbers ++ [n]) w := by
  obtain ⟨chain, rfl, hvalue⟩ := hmakes
  refine ⟨.link chain op (n, 0), operands_link chain op (n, 0), ?_⟩
  refine bind_eq_ok_iff.2 ⟨v, hvalue, Operator.apply_eq_ok_iff.2 ?_⟩
  rwa [Fraction.toRat_whole]

/-- The search has a solution whenever some of the numbers, in some order, make the value. -/
theorem Makes.isSome_searchWithin {part numbers : List Int64} {target : Fraction} {limit : Nat}
    (hmakes : Makes part target) (hpart : part.Subperm numbers) (htwo : 2 ≤ part.length)
    (hlimit : part.length ≤ limit) (hsize : numbers.length ≤ maxNumbers) :
    (searchWithin numbers target limit).isSome = true := by
  obtain ⟨chain, rfl, hvalue⟩ := hmakes
  obtain ⟨ps, hps, hmem, hdistinct⟩ := exists_picks_of_subperm hpart
  obtain ⟨other, rfl, hsame⟩ := exists_picks_eq hps
  rw [← hps, List.length_map] at htwo hlimit
  obtain ⟨found, hfound, _⟩ :=
    search?_complete hsize ⟨hmem, hdistinct⟩ (hsame.trans hvalue) htwo hlimit
  simp [searchWithin, hfound]

end TargetQuiz.Chain

namespace TargetQuiz.Decomposition

open Chain

theorem exact_div_parts (f : Fraction) :
    Operator.exact .div f.num.toInt f.den.toInt = some f.toRat := by
  rw [Operator.exact, if_neg f.den_ne_zero, f.toRat_eq_div]

/-- A whole that is not above the floor can be taken off a fraction. -/
theorem exists_toRat_eq_sub {f : Fraction} {w : Int} (hw : 0 ≤ w) (hfloor : w ≤ f.floor.toInt) :
    ∃ g : Fraction, g.toRat = f.toRat - w := by
  have hden := f.den_pos
  have hmul : w * f.den.toInt ≤ f.num.toInt := by
    rw [Fraction.toInt_floor] at hfloor
    exact (Int.le_ediv_iff_mul_le hden).1 hfloor
  have hnonneg : 0 ≤ w * f.den.toInt := Int.mul_nonneg hw (Int.le_of_lt hden)
  have hlt := f.num.toInt_lt
  have hnum : (Int64.ofInt (f.num.toInt - w * f.den.toInt)).toInt =
      f.num.toInt - w * f.den.toInt := Int64.toInt_ofInt_of_le (by omega) (by omega)
  have hreduced : (f.num.toInt - w * f.den.toInt).natAbs.Coprime f.den.toInt.natAbs := by
    have h := f.reduced
    rw [Nat.Coprime, ← Int.gcd_eq_natAbs_gcd_natAbs] at h ⊢
    rwa [Int.gcd_sub_mul_right_left]
  refine ⟨⟨Int64.ofInt (f.num.toInt - w * f.den.toInt), f.den, hden, by rwa [hnum]⟩, ?_⟩
  rw [Fraction.toRat_eq_div, Fraction.toRat_eq_div]
  change ((Int64.ofInt _).toInt : ℚ) / (f.den.toInt : ℚ) = _
  rw [hnum]
  push_cast
  rw [sub_div, mul_div_cancel_right₀ _ f.den_ne_zero]

theorem makes_ints {op : Operator} {a b : Int} {f : Fraction} (ha : Fits a) (hb : Fits b)
    (h : op.exact a b = some f.toRat) : Makes [Int64.ofInt a, Int64.ofInt b] f :=
  makes_pair (by rwa [ha.toInt_ofInt, hb.toInt_ofInt])

theorem makes_ofWhole {f : Fraction} (hf : f.isWhole = true) (hnum : 0 ≤ f.num.toInt) :
    Makes (ofWhole f.num.toInt).numbers f := by
  have hvalue := Fraction.toRat_of_isWhole hf
  have hlt := f.num.toInt_lt
  have hmax := Int64.toInt_maxValue
  unfold ofWhole
  split
  · rename_i hbig
    obtain ⟨ha, hb, hsum⟩ := splitWhole_spec hbig
    exact makes_ints ⟨ha, by omega⟩ ⟨hb, by omega⟩ (exact_splitWhole hf hbig)
  · split
    · rename_i hone
      have htwo : Fits 2 := ⟨by decide, by decide⟩
      have hexact : Operator.exact .div ((2 : Int) : ℚ) ((2 : Int) : ℚ) = some f.toRat := by
        rw [hvalue, hone, Operator.exact]
        norm_num
      exact makes_ints htwo htwo hexact
    · exact makes_ints ⟨by decide, by decide⟩ ⟨by omega, by omega⟩ (exact_one_sub hf)

/-- The fraction comes first, and the addends of the whole follow. -/
theorem exists_makes_ofMixed {f : Fraction} (hfloor : 0 ≤ f.floor.toInt) :
    ∃ order, Makes order f ∧ order.Perm (ofMixed f.floor.toInt f.fractionalPart.num.toInt
      f.fractionalPart.den.toInt).numbers := by
  have hvalue := f.toRat_eq_floor_add
  have hlt := f.floor.toInt_lt
  have hmax := Int64.toInt_maxValue
  have hexact := exact_div_parts f.fractionalPart
  have hrest := makes_pair hexact
  unfold ofMixed
  split
  · rename_i hzero
    rw [hzero, Int.cast_zero, zero_add] at hvalue
    rw [← hvalue] at hexact
    exact ⟨_, makes_pair hexact, by simp [ofInts]⟩
  · split
    -- a whole part of 1 is one addend, a greater one is split into two
    · rename_i hone
      have hsum : Operator.exact .add f.fractionalPart.toRat (1 : Int64).toInt =
          some f.toRat := by
        rw [Operator.exact, hvalue, hone, add_comm]
        rfl
      have hperm := List.perm_append_singleton 1 [f.fractionalPart.num, f.fractionalPart.den]
      exact ⟨_, hrest.link hsum, by simpa [ofInts] using hperm⟩
    · obtain ⟨ha, hb, hsplit⟩ := splitWhole_spec (w := f.floor.toInt) (by omega)
      have hfa : Fits (splitWhole f.floor.toInt).1 := ⟨ha, by omega⟩
      have hfb : Fits (splitWhole f.floor.toInt).2 := ⟨hb, by omega⟩
      have hcast : (f.floor.toInt : ℚ) =
          (splitWhole f.floor.toInt).1 + (splitWhole f.floor.toInt).2 := by
        rw [← Int.cast_add, hsplit]
      obtain ⟨g, hg⟩ := exists_toRat_eq_sub (f := f) (Int.le_of_lt hb) (by omega)
      have hfirst : Operator.exact .add f.fractionalPart.toRat
          (Int64.ofInt (splitWhole f.floor.toInt).1).toInt = some g.toRat := by
        rw [Operator.exact, hfa.toInt_ofInt, hg, hvalue, hcast]
        congr 1
        ring
      have hsecond : Operator.exact .add g.toRat
          (Int64.ofInt (splitWhole f.floor.toInt).2).toInt = some f.toRat := by
        rw [Operator.exact, hfb.toInt_ofInt, hg, sub_add_cancel]
      have hperm : ([f.fractionalPart.num, f.fractionalPart.den] ++
          ([(splitWhole f.floor.toInt).1, (splitWhole f.floor.toInt).2].map Int64.ofInt)).Perm
            (([(splitWhole f.floor.toInt).1, (splitWhole f.floor.toInt).2].map Int64.ofInt) ++
              [f.fractionalPart.num, f.fractionalPart.den]) := List.perm_append_comm
      exact ⟨_, (hrest.link hfirst).link hsecond, by simpa [ofInts] using hperm⟩

theorem exists_makes_decompose {f : Fraction} (hnum : 0 ≤ f.num.toInt) (cap : Int64) :
    ∃ order, Makes order f ∧ order.Perm (f.decompose cap).numbers := by
  unfold Fraction.decompose
  split
  · exact ⟨_, makes_ofWhole ‹_› hnum, .refl _⟩
  · rename_i hwhole
    rw [Bool.not_eq_true] at hwhole
    dsimp only
    split
    · have hrest := num_fractionalPart_pos hwhole
      have hpos : 0 < f.num.toInt := by
        rw [Fraction.toInt_fractionalPart_num] at hrest
        refine lt_of_le_of_ne hnum fun hzero => ?_
        rw [← hzero, Int.zero_emod] at hrest
        exact absurd hrest (Int.lt_irrefl 0)
      refine ⟨_, makes_pair (exact_div_parts f), ?_⟩
      rw [ofParts_of_pos hpos]
      simp [ofInts]
    · refine exists_makes_ofMixed ?_
      rw [Fraction.toInt_floor]
      exact Int.ediv_nonneg hnum (Int.le_of_lt f.den_pos)

end TargetQuiz.Decomposition

namespace TargetQuiz.Puzzle

open Chain

theorem Seeded.exists_makes {max : Int64} {avoid : Option Int64} {count : Nat}
    {target : Fraction} {base : Base} (h : Seeded max avoid count target base) :
    ∃ part, Makes part target ∧ part.Subperm base.numbers ∧ 2 ≤ part.length ∧
      part.length ≤ count := by
  obtain ⟨solution, hfound, _⟩ := h.found
  obtain ⟨chain, hsearch, _⟩ := Option.map_eq_some_iff.1 hfound
  obtain ⟨hvalue, hover, htwo, hlimit⟩ := search?_sound hsearch
  have hlength : chain.operands.length = chain.picks.length := by simp [operands]
  rw [← hlength] at htwo hlimit
  rw [h.length] at hlimit
  exact ⟨chain.operands, ⟨chain, rfl, hvalue⟩, hover.operands_subperm, htwo, hlimit⟩

theorem Decomposed.exists_makes {target : Fraction} {cap : Int64} {base : Base}
    (htarget : 0 ≤ target.num.toInt) (h : Decomposed target cap base) :
    ∃ part, Makes part target ∧ part.Subperm base.numbers ∧ 2 ≤ part.length ∧
      part.length ≤ 4 := by
  obtain ⟨filler, hnumbers, _⟩ := h.numbers
  obtain ⟨order, hmakes, hperm⟩ := Decomposition.exists_makes_decompose htarget cap
  have hlength := target.length_decompose cap
  rw [← hperm.length_eq] at hlength
  refine ⟨order, hmakes, ?_, hlength.1, hlength.2⟩
  rw [hnumbers]
  exact hperm.subperm.trans (List.sublist_append_left _ _).subperm

theorem Made.exists_makes {tier : Tier} {g : Generator} {p : Puzzle} {base : Base}
    (h : Made tier g p base) :
    ∃ part, Makes part p.target ∧ part.Subperm p.numbers ∧ 2 ≤ part.length ∧
      part.length ≤ 4 := by
  obtain ⟨next, hsampled⟩ := h.sampled
  obtain ⟨before, after, hdrawn⟩ := h.drawn
  have hbase : ∃ part, Makes part p.target ∧ part.Subperm base.numbers ∧ 2 ≤ part.length ∧
      part.length ≤ 4 := by
    rcases drawBase_eq_some hdrawn with ⟨count, _, hcount, hseeded⟩ | hdecomposed
    · obtain ⟨part, hmakes, hsub, htwo, hle⟩ := hseeded.exists_makes
      have hmost : tier.params.seedCount.hi.toInt ≤ 4 := by cases tier <;> decide
      exact ⟨part, hmakes, hsub, htwo, by omega⟩
    · exact hdecomposed.exists_makes (sampleTarget_num_nonneg hsampled)
  obtain ⟨part, hmakes, hsub, hlength⟩ := hbase
  exact ⟨part, hmakes, hsub.trans h.numbers_subperm, hlength⟩

theorem generate_length_le {tier : Tier} {g g' : Generator} {p : Puzzle}
    (h : generate tier g = some (p, g')) : p.numbers.length ≤ maxNumbers := by
  obtain ⟨base, size, filled, hsteps⟩ := generate_steps h
  obtain ⟨_, _, _, hbase⟩ := hsteps.drawn
  have hlength := hsteps.length_eq
  have hsize := hsteps.most
  have hmost : tier.params.setSize.hi.toInt ≤ 10 := by cases tier <;> decide
  have hfew := drawBase_length_le hbase
  have hmax : maxNumbers = 64 := rfl
  omega

/-- Whenever a puzzle is made, a search over the numbers on offer alone finds a solution of at most
four of them. -/
theorem search_reverifies {tier : Tier} {g g' : Generator} {p : Puzzle}
    (h : generate tier g = some (p, g')) : (searchWithin p.numbers p.target 4).isSome = true := by
  obtain ⟨base, hmade⟩ := generate_eq_some h
  obtain ⟨part, hmakes, hsub, htwo, hfour⟩ := hmade.exists_makes
  exact hmakes.isSome_searchWithin hsub htwo hfour (generate_length_le h)

theorem searchSeeds_eq_none {target : Fraction} {max : Int64} {count attempts : Nat}
    {g g' : Generator} {rounds : List (List Int64)}
    (hdraws : Generator.draws (Generator.draws (drawAvoiding max (wholeTarget? target)) count)
      attempts g = some (rounds, g'))
    (hmiss : ∀ seeds ∈ rounds, findSolution seeds target = none) :
    searchSeeds target max count attempts g = some (none, g') := by
  induction attempts generalizing g rounds with
  | zero =>
    cases hdraws
    rfl
  | succ attempts ih =>
    obtain ⟨⟨seeds, next⟩, hseeds, hrest⟩ := Option.bind_eq_some_iff.1 hdraws
    obtain ⟨⟨others, last⟩, hothers, heq⟩ := Option.bind_eq_some_iff.1 hrest
    cases heq
    rw [List.forall_mem_cons] at hmiss
    simp [searchSeeds, hseeds, hmiss.1, ih hothers hmiss.2]

theorem drawBase_eq_decomposed {tier : Tier} {target : Fraction} {count : Int64}
    {g g' g'' : Generator}
    (hcount : g.between tier.params.seedCount.lo tier.params.seedCount.hi = (count, g'))
    (hmiss : searchSeeds target tier.params.seedMax count.toInt.toNat (seedRetries + 1) g' =
      some (none, g'')) :
    drawBase tier target g = decomposed target tier.params.denominatorCap g'' := by
  simp only [drawBase, hcount, hmiss, Option.bind_eq_bind, Option.bind_some]

theorem findSolution_pair_eq_none {seeds : List Int64} {target : Fraction}
    (hpair : seeds.length = 2)
    (h : ∀ a ∈ seeds, ∀ b ∈ seeds, ∀ op ∈ Operator.all,
      op.apply (Fraction.whole a) (Fraction.whole b) ≠ .ok target) :
    findSolution seeds target = none := by
  rw [Option.eq_none_iff_forall_ne_some]
  intro solution hfound
  obtain ⟨chain, hsearch, _⟩ := Option.map_eq_some_iff.1 hfound
  obtain ⟨hvalue, hover, htwo, hlimit⟩ := search?_sound hsearch
  have hmem := hover.operands_subperm.subset
  cases chain with
  | start pick => simp [picks] at htwo
  | link chain op next =>
    cases chain with
    | start pick =>
      have hpick : pick.1 ∈ seeds := hmem (by simp [operands, picks])
      have hnext : next.1 ∈ seeds := hmem (by simp [operands, picks])
      exact h _ hpick _ hnext op (Operator.mem_all op) hvalue
    | link chain op' pick =>
      have hlong : 3 ≤ ((link (link chain op' pick) op next).picks).length := by
        cases chain <;> simp [picks]
      omega

def missedTarget : Fraction := ⟨41, 5, by decide, by decide⟩

def missedRounds : List (List Int64) :=
  [[15, 19], [18, 6], [11, 12], [18, 3], [11, 6], [2, 2], [1, 19], [9, 7], [10, 10], [17, 12],
    [14, 16]]

theorem missedRounds_drawn :
    Generator.draws (Generator.draws
      (drawAvoiding Tier.hard.params.seedMax (wholeTarget? missedTarget)) (2 : Int64).toInt.toNat)
        (seedRetries + 1) ⟨8370482183423416935, 1676666913330647979⟩ =
      some (missedRounds, ⟨4251368568869846209, 3626643972680953787⟩) := by
  decide +kernel

theorem findSolution_missedRounds :
    ∀ seeds ∈ missedRounds, findSolution seeds missedTarget = none := by
  -- tested item by item, since no word but those of a round is to be tried
  have hpairs : missedRounds.all (fun seeds => seeds.length == 2 && seeds.all fun a =>
      seeds.all fun b => Operator.all.all fun op =>
        op.apply (Fraction.whole a) (Fraction.whole b) != .ok missedTarget) = true := by
    decide +kernel
  simp only [List.all_eq_true, Bool.and_eq_true, beq_iff_eq, bne_iff_ne] at hpairs
  intro seeds hseeds
  exact findSolution_pair_eq_none (hpairs seeds hseeds).1 (hpairs seeds hseeds).2

theorem search_reverifies_decomposed :
    ∃ p g', generate .hard (Generator.ofSeed 37) = some (p, g') ∧ p.usedFallback = true ∧
      (searchWithin p.numbers p.target 4).isSome = true := by
  have htarget : sampleTarget .hard (Generator.ofSeed 37) =
      some (missedTarget, ⟨13222527662053856520, 15240761986402037941⟩) := by
    decide +kernel
  have hcount : (⟨13222527662053856520, 15240761986402037941⟩ : Generator).between
      Tier.hard.params.seedCount.lo Tier.hard.params.seedCount.hi =
        (2, ⟨8370482183423416935, 1676666913330647979⟩) := by
    decide +kernel
  have hdecomposed : decomposed missedTarget Tier.hard.params.denominatorCap
      ⟨4251368568869846209, 3626643972680953787⟩ = some (⟨[4, 4, 1, 5, 7], "4+4+1/5", true⟩,
        ⟨12730847098309323935, 6438580942602832199⟩) := by
    decide +kernel
  have hbase := (drawBase_eq_decomposed hcount
    (searchSeeds_eq_none missedRounds_drawn findSolution_missedRounds)).trans hdecomposed
  obtain ⟨p, g', h, _, hp⟩ := exists_generate htarget hbase rfl (by decide +kernel)
  exact ⟨p, g', h, hp, search_reverifies h⟩

end TargetQuiz.Puzzle

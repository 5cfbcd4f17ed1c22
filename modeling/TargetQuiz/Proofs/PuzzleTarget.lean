import Mathlib.Data.Rat.Lemmas
import TargetQuiz.Proofs.FractionExact
import TargetQuiz.Proofs.RandomDraw
import TargetQuiz.Puzzle.Basic

/-! A fractional target lies strictly between two whole numbers, because the part added to its whole
is never zero and never one. So the first draw is accepted. -/
namespace TargetQuiz.Puzzle

open Generator

/-- A fraction strictly between `whole` and the next whole number, in units of one over `scale`. -/
structure Above (whole scale : Int) (f : Fraction) : Prop where
  lt : (whole : ℚ) < f.toRat
  lt_succ : f.toRat < whole + 1
  den_dvd : f.den.toInt ∣ scale

namespace Above

variable {whole scale : Int} {f : Fraction}

theorem ne_intCast (h : Above whole scale f) (n : Int) : f.toRat ≠ n := by
  intro hn
  have hlt := h.lt
  have hsucc := h.lt_succ
  rw [hn] at hlt hsucc
  have hlt : whole < n := by exact_mod_cast hlt
  have hsucc : n < whole + 1 := by exact_mod_cast hsucc
  omega

theorem two_le_den (h : Above whole scale f) : 2 ≤ f.den.toInt := by
  have hpos := f.den_pos
  have hone : f.den.toInt ≠ 1 := by
    -- over one, the fraction would be its numerator
    intro hden
    refine h.ne_intCast f.num.toInt ?_
    rw [f.toRat_eq_div, hden, Int.cast_one, div_one]
  omega

theorem den_le (h : Above whole scale f) (hscale : 0 < scale) : f.den.toInt ≤ scale :=
  Int.le_of_dvd hscale h.den_dvd

theorem pos (h : Above whole scale f) (hwhole : 0 ≤ whole) : 0 < f.toRat :=
  lt_of_le_of_lt (by exact_mod_cast hwhole) h.lt

theorem lt_of_le (h : Above whole scale f) (bound : Int) (hwhole : whole ≤ bound) :
    f.toRat < bound + 1 :=
  lt_of_lt_of_le h.lt_succ (by exact_mod_cast Int.add_le_add_right hwhole 1)

end Above

theorem above_of_ofQuotient {whole digits scale : Int} {f : Fraction} (hdigits : 0 < digits)
    (hlt : digits < scale) (h : Fraction.ofQuotient (whole * scale + digits) scale = .ok f) :
    Above whole scale f := by
  obtain ⟨-, hvalue⟩ := Fraction.ofQuotient_eq_ok_iff.1 h
  have hscale : (0 : ℚ) < scale := by exact_mod_cast Int.lt_trans hdigits hlt
  refine ⟨?_, ?_, ?_⟩
  · rw [hvalue, lt_div_iff₀ hscale]
    exact_mod_cast Int.lt_add_of_pos_right _ hdigits
  · rw [hvalue, div_lt_iff₀ hscale, add_mul, one_mul]
    exact_mod_cast Int.add_lt_add_left hlt _
  · rw [← f.toRat_den, hvalue, ← Rat.divInt_eq_div]
    exact Rat.den_dvd _ _

def scaled? (whole digits scale : Int64) : Option Fraction := do
  let wholes ← Word.int64? (whole.toInt * scale.toInt)
  let num ← Word.int64? (wholes.toInt + digits.toInt)
  (Fraction.ofWords num scale).toOption

def drawMixed? (whole : Int64) (g : Generator) : Option (Fraction × Generator) := do
  let (den, g) := g.between 2 10
  let (num, g) := g.between 1 (den - 1)
  return (← scaled? whole num den, g)

def drawDecimal? (wholeMax : Int64) (scale : Int64) (g : Generator) :
    Option (Fraction × Generator) := do
  let (whole, g) := g.between 0 wholeMax
  let (digits, g) := g.between 1 (scale - 1)
  return (← scaled? whole digits scale, g)

def drawCandidate? (tier : Tier) (g : Generator) : Option (Fraction × Generator) :=
  match tier with
  | .easy =>
    let (n, g) := g.between 1 1000
    some (Fraction.whole n, g)
  | .medium =>
    let (isDecimal, g) := g.coin
    if isDecimal then drawDecimal? 50 10 g else drawMixed? 0 g
  | .hard =>
    let (isDecimal, g) := g.coin
    if isDecimal then drawDecimal? 100 100 g
    else
      let (whole, g) := g.between 1 10
      drawMixed? whole g

/-- Small parts are put together with no failure, and the digits keep the result off the whole
numbers. -/
theorem scaled?_eq_scaled {whole digits scale : Int64} (hwhole : 0 ≤ whole.toInt)
    (hwholeMax : whole.toInt ≤ 100) (hdigits : 1 ≤ digits.toInt)
    (hlt : digits.toInt < scale.toInt) (hscale : scale.toInt ≤ 100) :
    scaled? whole digits scale = some (scaled whole digits scale.toInt) ∧
      Above whole.toInt scale.toInt (scaled whole digits scale.toInt) := by
  have hmax := Int64.toInt_maxValue
  have hmin := Int64.toInt_minValue
  -- all parts are small, so neither the product nor the sum leaves the words
  have hproduct : whole.toInt * scale.toInt ≤ 100 * 100 :=
    Int.mul_le_mul hwholeMax hscale (by omega) (by decide)
  have hnonneg : 0 ≤ whole.toInt * scale.toInt := Int.mul_nonneg hwhole (by omega)
  obtain ⟨wholes, hwholes⟩ := Word.exists_int64? (z := whole.toInt * scale.toInt)
    (by omega) (by omega)
  obtain ⟨num, hnum⟩ := Word.exists_int64? (z := whole.toInt * scale.toInt + digits.toInt)
    (by omega) (by omega)
  obtain ⟨f, hf⟩ := Fraction.exists_ofQuotient (n := whole.toInt * scale.toInt + digits.toInt)
    (d := scale.toInt) (by omega) (by omega) (by omega)
  have hscaled : scaled whole digits scale.toInt = f := by
    rw [scaled, hf]
    rfl
  have hwords : Fraction.ofWords num scale = .ok f := by
    rw [Fraction.ofWords, Word.int64?_eq_some_iff.1 hnum, hf]
  rw [hscaled]
  refine ⟨?_, above_of_ofQuotient hdigits hlt hf⟩
  simp [scaled?, hwholes, Word.int64?_eq_some_iff.1 hwholes, hnum, hwords, Except.toOption]

def Suits : Tier → Fraction → Prop
  | .easy, f => ∃ n : Int, 1 ≤ n ∧ n ≤ 1000 ∧ f.toRat = n
  | .medium, f =>
    (∀ n : Int, f.toRat ≠ n) ∧ 0 < f.toRat ∧ f.toRat < 51 ∧ 2 ≤ f.den.toInt ∧ f.den.toInt ≤ 10
  | .hard, f =>
    (∀ n : Int, f.toRat ≠ n) ∧ 0 < f.toRat ∧ f.toRat < 101 ∧ 2 ≤ f.den.toInt ∧
      (f.den.toInt ≤ 10 ∨ f.den.toInt ∣ 100)

theorem between_one_pred {scale : Int64} (hscale : 2 ≤ scale.toInt) (g : Generator) :
    1 ≤ (g.between 1 (scale - 1)).1.toInt ∧ (g.between 1 (scale - 1)).1.toInt < scale.toInt := by
  have hone : (1 : Int64).toInt = 1 := by decide
  have hpred : (scale - 1).toInt = scale.toInt - 1 := by
    have hlt := scale.toInt_lt
    rw [Int64.toInt_sub, hone]
    exact Int.bmod_eq_of_le (by omega) (by omega)
  have hbounds := between_bounds 1 (scale - 1) (by decide) g
  omega

theorem drawMixed_above (whole : Int64) (hwhole : 0 ≤ whole.toInt) (hmax : whole.toInt ≤ 100)
    (g : Generator) :
    drawMixed? whole g = some (drawMixed whole g) ∧
      ∃ scale, 0 < scale ∧ scale ≤ 10 ∧ Above whole.toInt scale (drawMixed whole g).1 := by
  obtain ⟨den, next, hden, htwo, hten⟩ :
      ∃ den next, g.between 2 10 = (den, next) ∧ 2 ≤ den.toInt ∧ den.toInt ≤ 10 :=
    ⟨_, _, rfl, between_bounds_of_le 2 10 (by decide) (by decide) g⟩
  obtain ⟨hpos, hlt⟩ := between_one_pred htwo next
  obtain ⟨hscaled, habove⟩ := scaled?_eq_scaled hwhole hmax hpos hlt (by omega)
  simp only [drawMixed?, drawMixed, hden, hscaled]
  exact ⟨rfl, den.toInt, by omega, hten, habove⟩

theorem drawDecimal_above (wholeMax scale : Int64) (hwholeMax : 0 ≤ wholeMax.toInt)
    (hmax : wholeMax.toInt ≤ 100) (htwo : 2 ≤ scale.toInt) (hscale : scale.toInt ≤ 100)
    (g : Generator) :
    drawDecimal? wholeMax scale g = some (drawDecimal wholeMax scale g) ∧
      ∃ whole, 0 ≤ whole ∧ whole ≤ wholeMax.toInt ∧
        Above whole scale.toInt (drawDecimal wholeMax scale g).1 := by
  obtain ⟨whole, next, hwhole, hnonneg, hle⟩ : ∃ whole next, g.between 0 wholeMax = (whole, next) ∧
      0 ≤ whole.toInt ∧ whole.toInt ≤ wholeMax.toInt :=
    ⟨_, _, rfl, between_bounds_of_le 0 wholeMax (by decide) hwholeMax g⟩
  obtain ⟨hpos, hlt⟩ := between_one_pred htwo next
  obtain ⟨hscaled, habove⟩ := scaled?_eq_scaled hnonneg (hle.trans hmax) hpos hlt hscale
  simp only [drawDecimal?, drawDecimal, hwhole, hscaled]
  exact ⟨rfl, whole.toInt, hnonneg, hle, habove⟩

/-- A candidate is always constructed, and it suits its tier. -/
theorem drawCandidate_suits (tier : Tier) (g : Generator) :
    drawCandidate? tier g = some (drawCandidate tier g) ∧ Suits tier (drawCandidate tier g).1 := by
  cases tier with
  | easy =>
    have hbounds : 1 ≤ (g.between 1 1000).1.toInt ∧ (g.between 1 1000).1.toInt ≤ 1000 :=
      between_bounds_of_le 1 1000 (by decide) (by decide) g
    exact ⟨rfl, _, hbounds.1, hbounds.2, Fraction.toRat_whole _⟩
  | medium =>
    simp only [drawCandidate?, drawCandidate]
    split
    · obtain ⟨hdrawn, whole, hnonneg, hle, h⟩ :=
        drawDecimal_above 50 10 (by decide) (by decide) (by decide) (by decide) g.coin.2
      exact ⟨hdrawn, h.ne_intCast, h.pos hnonneg, by exact_mod_cast h.lt_of_le 50 hle, h.two_le_den,
        h.den_le (by decide)⟩
    · obtain ⟨hdrawn, scale, hpos, hten, h⟩ := drawMixed_above 0 (by decide) (by decide) g.coin.2
      refine ⟨hdrawn, h.ne_intCast, h.pos (by decide), ?_, h.two_le_den, (h.den_le hpos).trans hten⟩
      exact_mod_cast h.lt_of_le 50 (by decide)
  | hard =>
    simp only [drawCandidate?, drawCandidate]
    split
    · obtain ⟨hdrawn, whole, hnonneg, hle, h⟩ :=
        drawDecimal_above 100 100 (by decide) (by decide) (by decide) (by decide) g.coin.2
      exact ⟨hdrawn, h.ne_intCast, h.pos hnonneg, by exact_mod_cast h.lt_of_le 100 hle,
        h.two_le_den, .inr h.den_dvd⟩
    · obtain ⟨whole, next, hwhole, hone, hten⟩ : ∃ whole next,
          g.coin.2.between 1 10 = (whole, next) ∧ 1 ≤ whole.toInt ∧ whole.toInt ≤ 10 :=
        ⟨_, _, rfl, between_bounds_of_le 1 10 (by decide) (by decide) g.coin.2⟩
      obtain ⟨hdrawn, scale, hpos, hscale, h⟩ := drawMixed_above whole (by omega) (by omega) next
      simp only [hwhole]
      refine ⟨hdrawn, h.ne_intCast, h.pos (by omega), ?_, h.two_le_den,
        .inl ((h.den_le hpos).trans hscale)⟩
      exact_mod_cast h.lt_of_le 100 (by omega)

theorem Suits.accepted {tier : Tier} {f : Fraction} (h : Suits tier f) :
    (!tier.needsFraction || !f.isWhole) = true := by
  have hwhole (hne : ∀ n : Int, f.toRat ≠ n) : f.isWhole = false :=
    Bool.eq_false_iff.2 fun hwhole => hne _ (Fraction.toRat_of_isWhole hwhole)
  cases tier with
  | easy => rfl
  | medium => rw [hwhole h.1]; rfl
  | hard => rw [hwhole h.1]; rfl

theorem Suits.pos {tier : Tier} {f : Fraction} (h : Suits tier f) : 0 < f.toRat := by
  cases tier with
  | easy =>
    obtain ⟨n, hn, -, hvalue⟩ := h
    rw [hvalue]
    exact_mod_cast hn
  | medium => exact h.2.1
  | hard => exact h.2.1

theorem sampleTarget_eq_drawCandidate (tier : Tier) (g : Generator) :
    sampleTarget tier g = some (drawCandidate tier g) :=
  drawUntil_of_accepted (drawCandidate_suits tier g).2.accepted

/-- A target is sampled with the first draw, from every state of the generator. It is the value
that was constructed, not the zero that would stand in for a failed construction, and it is within
the range of its tier. -/
theorem sampleTarget_first (tier : Tier) (g : Generator) :
    sampleTarget tier g = some (drawCandidate tier g) ∧
      drawCandidate? tier g = some (drawCandidate tier g) ∧
      (drawCandidate tier g).1 ≠ Fraction.zero ∧ Suits tier (drawCandidate tier g).1 := by
  obtain ⟨hconstructed, hsuits⟩ := drawCandidate_suits tier g
  refine ⟨sampleTarget_eq_drawCandidate tier g, hconstructed, fun hzero => ?_, hsuits⟩
  have hpos := hsuits.pos
  rw [hzero] at hpos
  exact lt_irrefl _ hpos

end TargetQuiz.Puzzle

import Mathlib.Data.Rat.Floor
import TargetQuiz.Proofs.FractionDoubleWords
import TargetQuiz.Question.Payload

namespace TargetQuiz

namespace Fraction

/-- A pair of words in lowest terms for a value from zero to below one. -/
structure Parts.Proper (p : Parts) : Prop where
  nonneg : 0 ≤ p.num.toInt
  lt : p.num.toInt < p.den.toInt
  coprime : p.num.toInt.natAbs.Coprime p.den.toInt.natAbs

theorem floor_eq (f : Fraction) : f.floor.toInt = ⌊f.toRat⌋ := by
  rw [toInt_floor, Rat.floor_def', toRat_num, toRat_den]

theorem toRat_fractionalPart (f : Fraction) : f.fractionalPart.toRat = Int.fract f.toRat := by
  rw [Int.fract, ← floor_eq]
  exact eq_sub_of_add_eq' f.toRat_eq_floor_add.symm

theorem proper_fractionalPart (f : Fraction) : f.fractionalPart.parts.Proper where
  nonneg := f.fractionalPart_num_nonneg
  lt := by
    rw [parts_num, parts_den, toInt_fractionalPart_num, fractionalPart_den]
    exact Int.emod_lt_of_pos _ f.den_pos
  coprime := f.fractionalPart.reduced

theorem whole_floor_add (f : Fraction) : (whole f.floor).add f.fractionalPart = .ok f := by
  rw [add_eq_ok_iff, toRat_whole]
  exact f.toRat_eq_floor_add

end Fraction

open Fraction (Parts)

def Fraction.Parts.value (p : Parts) : ℚ := p.num.toInt / p.den.toInt

namespace TargetPayload

def target (t : TargetPayload) : Parts := ⟨t.numerator, t.denominator⟩

def rest (t : TargetPayload) : Parts := ⟨t.fraction.num, t.fraction.den⟩

theorem value_target_ofFraction (f : Fraction) : (ofFraction f).target.value = f.toRat :=
  f.toRat_eq_div.symm

theorem value_rest_ofFraction (f : Fraction) :
    (ofFraction f).rest.value = f.fractionalPart.toRat := f.fractionalPart.toRat_eq_div.symm

end TargetPayload

/-- Every fraction is the sum of its floor and a proper fraction, both as fractions and in words
with no overflow on the way, and it is sent as these two beside its own parts. -/
theorem Fraction.floor_decomposition (f : Fraction) :
    f.floor.toInt = ⌊f.toRat⌋ ∧
      f.parts.fractionalPart.Proper ∧ f.parts.fractionalPart = f.fractionalPart.parts ∧
      f.fractionalPart.toRat = Int.fract f.toRat ∧
      (whole f.floor).add f.fractionalPart = .ok f ∧
      Parts.apply .add ⟨f.floor, 1⟩ f.parts.fractionalPart = some (.ok f.parts) ∧
      (TargetPayload.ofFraction f).target.value =
        (TargetPayload.ofFraction f).whole.toInt + (TargetPayload.ofFraction f).rest.value ∧
      (TargetPayload.ofFraction f).rest.Proper ∧
      (TargetPayload.ofFraction f).toFraction = .ok f := by
  have hsum : Operator.add.apply (whole f.floor) f.fractionalPart = .ok f := f.whole_floor_add
  have hwords := Parts.apply_eq .add (whole f.floor) f.fractionalPart
  rw [hsum] at hwords
  refine ⟨f.floor_eq, ?_, Parts.fractionalPart_parts f, f.toRat_fractionalPart, hsum, ?_, ?_,
    f.proper_fractionalPart, f.ofWords_parts⟩
  · rw [Parts.fractionalPart_parts]
    exact f.proper_fractionalPart
  · rw [Parts.fractionalPart_parts]
    exact hwords
  · rw [TargetPayload.value_target_ofFraction, TargetPayload.value_rest_ofFraction]
    exact f.toRat_eq_floor_add

end TargetQuiz

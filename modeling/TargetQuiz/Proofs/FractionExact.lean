import Mathlib.Algebra.Order.Field.Rat
import TargetQuiz.Operator

/-! A fraction is determined by its rational value, and an operation has a result exactly when the
rational result is the value of some fraction. -/
namespace TargetQuiz.Fraction

theorem toRat_num (f : Fraction) : f.toRat.num = f.num.toInt := rfl

theorem toRat_den (f : Fraction) : (f.toRat.den : Int) = f.den.toInt :=
  Int.natAbs_of_nonneg (Int.le_of_lt f.den_pos)

theorem toRat_eq_div (f : Fraction) : f.toRat = (f.num.toInt : ℚ) / (f.den.toInt : ℚ) := by
  rw [← toRat_den, ← toRat_num, Int.cast_natCast, Rat.num_div_den]

theorem den_ne_zero (f : Fraction) : (f.den.toInt : ℚ) ≠ 0 := by
  exact_mod_cast Int.ne_of_gt f.den_pos

theorem toRat_injective {f g : Fraction} (h : f.toRat = g.toRat) : f = g := by
  have hnum : f.num = g.num := by
    rw [← Int64.toInt_inj, ← toRat_num, ← toRat_num, h]
  have hden : f.den = g.den := by
    rw [← Int64.toInt_inj, ← toRat_den, ← toRat_den, h]
  cases f
  cases g
  simp_all

theorem toRat_whole (n : Int64) : (whole n).toRat = n.toInt := by
  rw [toRat_eq_div]
  simp [whole]

theorem ofQuotient_num (n d : Int) :
    d.sign * n / (n.natAbs.gcd d.natAbs : Int) = (Rat.divInt n d).num := by
  rw [Rat.num_divInt, Int.gcd_comm, Int.gcd_eq_natAbs_gcd_natAbs]

theorem ofQuotient_den {n d : Int} (hd : d ≠ 0) :
    d.natAbs / n.natAbs.gcd d.natAbs = (Rat.divInt n d).den := by
  rw [Rat.den_divInt, if_neg hd, Int.gcd_comm, Int.gcd_eq_natAbs_gcd_natAbs]

/-- A quotient exists exactly when its divisor is not zero and some fraction has its value. -/
theorem ofQuotient_eq_ok_iff {n d : Int} {f : Fraction} :
    ofQuotient n d = .ok f ↔ d ≠ 0 ∧ f.toRat = n / d := by
  rw [← Rat.divInt_eq_div]
  constructor
  · intro h
    unfold ofQuotient at h
    split at h
    · simp at h
    · rename_i hd
      split at h
      · rename_i num den hnum hden
        cases h
        rw [Word.int64?_eq_some_iff, ofQuotient_num] at hnum
        rw [Word.int64?_eq_some_iff, ofQuotient_den hd] at hden
        refine ⟨hd, Rat.ext hnum ?_⟩
        change den.toInt.natAbs = _
        rw [hden, Int.natAbs_natCast]
      · simp at h
  · rintro ⟨hd, hf⟩
    have hnum : Word.int64? (d.sign * n / (n.natAbs.gcd d.natAbs : Int)) = some f.num := by
      rw [Word.int64?_eq_some_iff, ofQuotient_num, ← hf, toRat_num]
    have hden : Word.int64? (d.natAbs / n.natAbs.gcd d.natAbs : Nat) = some f.den := by
      rw [Word.int64?_eq_some_iff, ofQuotient_den hd, ← hf, toRat_den]
    unfold ofQuotient
    rw [dif_neg hd]
    split
    · rename_i num den hnum' hden'
      rw [hnum] at hnum'
      rw [hden] at hden'
      cases hnum'
      cases hden'
      rfl
    · rename_i hnone
      exact (hnone f.num f.den hnum hden).elim

/-- Reduction makes no part larger, so the quotient of integers within the words exists. -/
theorem exists_ofQuotient {n d : Int} (hd : d ≠ 0) (hn : n.natAbs ≤ Int64.maxValue.toInt)
    (hdmax : d.natAbs ≤ Int64.maxValue.toInt) : ∃ f, ofQuotient n d = .ok f := by
  have hnum := Nat.div_le_self n.natAbs (n.natAbs.gcd d.natAbs)
  rw [← natAbs_mul_sign_ediv n d _ hd (Nat.gcd_dvd_left _ _)] at hnum
  have hden := Nat.div_le_self d.natAbs (n.natAbs.gcd d.natAbs)
  have hmin : Int64.minValue.toInt < -Int64.maxValue.toInt := by decide
  obtain ⟨num, hnum⟩ := Word.exists_int64? (z := d.sign * n / (n.natAbs.gcd d.natAbs : Int))
    (by omega) (by omega)
  obtain ⟨den, hden⟩ := Word.exists_int64? (z := (d.natAbs / n.natAbs.gcd d.natAbs : Nat))
    (Int.le_trans (by decide) (Int.natCast_nonneg _)) (Int.le_trans (Int.ofNat_le.2 hden) hdmax)
  unfold ofQuotient
  rw [dif_neg hd]
  split
  · exact ⟨_, rfl⟩
  · rename_i hnone
    exact (hnone num den hnum hden).elim

theorem ofWords_parts (f : Fraction) : ofWords f.num f.den = .ok f :=
  ofQuotient_eq_ok_iff.2 ⟨Int.ne_of_gt f.den_pos, toRat_eq_div f⟩

theorem den_mul_den_ne_zero (a b : Fraction) : a.den.toInt * b.den.toInt ≠ 0 :=
  mul_ne_zero (Int.ne_of_gt a.den_pos) (Int.ne_of_gt b.den_pos)

theorem add_eq_ok_iff {a b r : Fraction} : add a b = .ok r ↔ r.toRat = a.toRat + b.toRat := by
  rw [add, ofQuotient_eq_ok_iff, and_iff_right (den_mul_den_ne_zero a b), toRat_eq_div a,
    toRat_eq_div b]
  push_cast
  rw [div_add_div _ _ a.den_ne_zero b.den_ne_zero, mul_comm (b.num.toInt : ℚ)]

theorem sub_eq_ok_iff {a b r : Fraction} : sub a b = .ok r ↔ r.toRat = a.toRat - b.toRat := by
  rw [sub, ofQuotient_eq_ok_iff, and_iff_right (den_mul_den_ne_zero a b), toRat_eq_div a,
    toRat_eq_div b]
  push_cast
  rw [div_sub_div _ _ a.den_ne_zero b.den_ne_zero, mul_comm (b.num.toInt : ℚ)]

theorem mul_eq_ok_iff {a b r : Fraction} : mul a b = .ok r ↔ r.toRat = a.toRat * b.toRat := by
  rw [mul, ofQuotient_eq_ok_iff, and_iff_right (den_mul_den_ne_zero a b), toRat_eq_div a,
    toRat_eq_div b]
  push_cast
  rw [div_mul_div_comm]

theorem toRat_eq_zero_iff {f : Fraction} : f.toRat = 0 ↔ f.num.toInt = 0 := by
  rw [← toRat_num, Rat.num_eq_zero]

theorem div_eq_ok_iff {a b r : Fraction} :
    div a b = .ok r ↔ b.toRat ≠ 0 ∧ r.toRat = a.toRat / b.toRat := by
  have hd : a.den.toInt * b.num.toInt ≠ 0 ↔ b.toRat ≠ 0 := by
    rw [Ne, Ne, toRat_eq_zero_iff, mul_eq_zero, or_iff_right (Int.ne_of_gt a.den_pos)]
  rw [div, ofQuotient_eq_ok_iff, hd, toRat_eq_div a, toRat_eq_div b]
  push_cast
  rw [div_div_div_eq]

theorem toRat_of_isWhole {f : Fraction} (h : f.isWhole = true) : f.toRat = f.num.toInt := by
  have hden : f.den = 1 := by simpa [isWhole] using h
  rw [toRat_eq_div, hden]
  simp

theorem toInt_floor (f : Fraction) : f.floor.toInt = f.num.toInt / f.den.toInt := by
  have hnum := f.num.le_toInt
  have hlt := f.num.toInt_lt
  have hsign := Int.ediv_nonneg_iff_of_pos (a := f.num.toInt) f.den_pos
  have habs := Int.natAbs_ediv_le_natAbs f.num.toInt f.den.toInt
  exact Int64.toInt_ofInt_of_le (by omega) (by omega)

theorem toInt_fractionalPart_num (f : Fraction) :
    f.fractionalPart.num.toInt = f.num.toInt % f.den.toInt := by
  unfold fractionalPart
  split
  · rename_i hzero
    exact hzero.symm
  · exact toInt_emod f

/-- In lowest terms only the denominator one leaves no remainder. -/
theorem den_of_emod_eq_zero {f : Fraction} (h : f.num.toInt % f.den.toInt = 0) : f.den = 1 := by
  have hreduced := f.emod_coprime
  have hpos := f.den_pos
  rw [h, Int.natAbs_zero, Nat.coprime_zero_left] at hreduced
  have hone : f.den.toInt = 1 := by omega
  exact Int64.toInt_inj.1 hone

theorem fractionalPart_den (f : Fraction) : f.fractionalPart.den = f.den := by
  unfold fractionalPart
  split
  · rename_i hzero
    exact (den_of_emod_eq_zero hzero).symm
  · rfl

theorem floor_nonneg {f : Fraction} (hnum : 0 ≤ f.num.toInt) : 0 ≤ f.floor.toInt := by
  rw [toInt_floor]
  exact Int.ediv_nonneg hnum (Int.le_of_lt f.den_pos)

theorem fractionalPart_num_nonneg (f : Fraction) : 0 ≤ f.fractionalPart.num.toInt := by
  rw [toInt_fractionalPart_num]
  exact Int.emod_nonneg _ (Int.ne_of_gt f.den_pos)

theorem toRat_eq_floor_add (f : Fraction) :
    f.toRat = f.floor.toInt + f.fractionalPart.toRat := by
  have hden := f.den_ne_zero
  have hdivmod : (f.num.toInt : ℚ) =
      f.den.toInt * (f.num.toInt / f.den.toInt : Int) + (f.num.toInt % f.den.toInt : Int) := by
    exact_mod_cast (Int.mul_ediv_add_emod f.num.toInt f.den.toInt).symm
  have hrest : f.fractionalPart.toRat = ((f.num.toInt % f.den.toInt : Int) : ℚ) / f.den.toInt := by
    rw [toRat_eq_div, toInt_fractionalPart_num, fractionalPart_den]
  rw [hrest, toInt_floor, toRat_eq_div, hdivmod, add_div, mul_div_cancel_left₀ _ hden]

end TargetQuiz.Fraction

namespace TargetQuiz.Operator

def exact : Operator → ℚ → ℚ → Option ℚ
  | add, x, y => some (x + y)
  | sub, x, y => some (x - y)
  | mul, x, y => some (x * y)
  | div, x, y => if y = 0 then none else some (x / y)

/-- A result of an operator is the exact one, and no other reason than its size stops it. -/
theorem apply_eq_ok_iff {op : Operator} {a b r : Fraction} :
    op.apply a b = .ok r ↔ op.exact a.toRat b.toRat = some r.toRat := by
  cases op with
  | add => simpa [apply, exact, eq_comm] using Fraction.add_eq_ok_iff
  | sub => simpa [apply, exact, eq_comm] using Fraction.sub_eq_ok_iff
  | mul => simpa [apply, exact, eq_comm] using Fraction.mul_eq_ok_iff
  | div =>
    rw [apply, Fraction.div_eq_ok_iff, exact]
    by_cases h : b.toRat = 0 <;> simp [h, eq_comm]

end TargetQuiz.Operator

import Mathlib.Algebra.Order.Field.Power
import Mathlib.Algebra.Order.Field.Rat
import Mathlib.Tactic.Linarith
import Mathlib.Tactic.NormNum
import Mathlib.Tactic.Ring
import TargetQuiz.Binary64.Basic

/-! The value of a magnitude grows with its bits, so rounding to the nearest magnitude is monotone,
and so is rounding a product. -/
namespace TargetQuiz.Binary64

theorem twoPow_num_pos (e : Int) : 0 < (twoPow e).1 := Nat.pow_pos (by decide)

theorem twoPow_den_pos (e : Int) : 0 < (twoPow e).2 := Nat.pow_pos (by decide)

theorem pow_toNat_div {b : ℚ} (hb : b ≠ 0) (e : Int) :
    b ^ e.toNat / b ^ (-e).toNat = b ^ e := by
  have hsplit : e = (e.toNat : Int) - ((-e).toNat : Int) := by omega
  conv_rhs => rw [hsplit, zpow_sub₀ hb, zpow_natCast, zpow_natCast]

theorem twoPow_div (e : Int) : ((twoPow e).1 / (twoPow e).2 : ℚ) = 2 ^ e := by
  rw [← pow_toNat_div two_ne_zero]
  exact_mod_cast rfl

def value (magnitude : Nat) : ℚ := (quotient magnitude).1 / (quotient magnitude).2

theorem quotient_den_pos (m : Nat) : 0 < (quotient m).2 := twoPow_den_pos _

theorem value_eq (m : Nat) : value m = (decode m).1 * 2 ^ (decode m).2 := by
  have hnum : (quotient m).1 = (decode m).1 * (twoPow (decode m).2).1 := rfl
  have hden : (quotient m).2 = (twoPow (decode m).2).2 := rfl
  rw [value, hnum, hden, Nat.cast_mul, mul_div_assoc, twoPow_div]

theorem value_succ (m : Nat) : value (m + 1) = ((decode m).1 + 1) * 2 ^ (decode m).2 := by
  rw [value_eq]
  unfold decode
  have hsize : perExponent = 4503599627370496 := rfl
  rw [hsize]
  by_cases hsmall : m + 1 < 4503599627370496
  · rw [if_pos hsmall, if_pos (by omega)]
    exact congrArg (fun x : ℚ => x * 2 ^ (-1074 : Int)) (Nat.cast_succ m)
  rw [if_neg hsmall]
  by_cases hfirst : m + 1 = 4503599627370496
  · rw [if_pos (by omega)]
    have hsig : (((m + 1) % 4503599627370496 + 4503599627370496 : Nat) : ℚ) = (m : ℚ) + 1 := by
      exact_mod_cast (by omega : (m + 1) % 4503599627370496 + 4503599627370496 = m + 1)
    have hexp : (((m + 1) / 4503599627370496 : Nat) : Int) - 1075 = -1074 := by omega
    exact congrArg₂ (fun (x : ℚ) (e : Int) => x * 2 ^ e) hsig hexp
  rw [if_neg (by omega)]
  by_cases hlast : m % 4503599627370496 + 1 = 4503599627370496
  · -- the last significand of an exponent is followed by the first one of the next
    have hmod : (m + 1) % 4503599627370496 = 0 := by omega
    have hexp : (((m + 1) / 4503599627370496 : Nat) : Int) - 1075 =
        (((m / 4503599627370496 : Nat) : Int) - 1075) + 1 := by omega
    have hsig : ((m % 4503599627370496 + 4503599627370496 : Nat) : ℚ) + 1 =
        2 * 4503599627370496 := by
      exact_mod_cast (by omega :
        m % 4503599627370496 + 4503599627370496 + 1 = 2 * 4503599627370496)
    simp only [hmod, hexp, hsig, Nat.zero_add, Nat.cast_ofNat]
    rw [zpow_add_one₀ two_ne_zero]
    ring
  · have hmod : (m + 1) % 4503599627370496 = m % 4503599627370496 + 1 := by omega
    have hdiv : (m + 1) / 4503599627370496 = m / 4503599627370496 := by omega
    simp only [hmod, hdiv]
    push_cast
    ring

theorem value_strictMono : StrictMono value := by
  refine strictMono_nat_of_lt_succ fun m => ?_
  rw [value_succ, value_eq]
  have hpos : (0 : ℚ) < 2 ^ (decode m).2 := by positivity
  exact mul_lt_mul_of_pos_right (lt_add_one _) hpos

section Rounding

variable {n d n' d' : Nat}

theorem le_roundToEven (n d : Nat) : n / d ≤ roundToEven n d := by
  unfold roundToEven
  dsimp only
  split <;> omega

theorem roundToEven_le_succ (n d : Nat) : roundToEven n d ≤ n / d + 1 := by
  unfold roundToEven
  dsimp only
  split <;> omega

theorem roundToEven_mono (hd : 0 < d) (hd' : 0 < d') (h : n * d' ≤ n' * d) :
    roundToEven n d ≤ roundToEven n' d' := by
  have hn := Nat.div_add_mod n d
  have hn' := Nat.div_add_mod n' d'
  have hfloor : n / d ≤ n' / d' := by
    refine (Nat.le_div_iff_mul_le hd').2 (Nat.le_of_mul_le_mul_right ?_ hd)
    calc n / d * d' * d = n / d * d * d' := by ring
      _ ≤ n * d' := Nat.mul_le_mul_right _ (Nat.div_mul_le_self n d)
      _ ≤ n' * d := h
  rcases hfloor.lt_or_eq with hlt | heq
  · exact (roundToEven_le_succ n d).trans (Nat.le_trans hlt (le_roundToEven n' d'))
  -- with the same floor the remainders decide
  have hrest : n % d * d' ≤ n' % d' * d := by
    rw [heq] at hn
    have hsame : d * (n' / d') * d' = d' * (n' / d') * d := by ring
    nlinarith
  unfold roundToEven
  simp only [heq]
  by_cases hdown : 2 * (n' % d') < d' ∨ 2 * (n' % d') = d' ∧ n' / d' % 2 = 0
  · have hdown' : 2 * (n % d) < d ∨ 2 * (n % d) = d ∧ n' / d' % 2 = 0 := by
      rcases hdown with hlt | ⟨htie, heven⟩
      · left
        nlinarith
      · have hle : 2 * (n % d) ≤ d := by nlinarith
        rcases hle.lt_or_eq with hlt | hsame
        · exact .inl hlt
        · exact .inr ⟨hsame, heven⟩
    rw [if_pos hdown, if_pos hdown']
  · rw [if_neg hdown]
    split <;> omega

theorem roundToEven_mul (k : Nat) (hd : 0 < d) : roundToEven (k * d) d = k := by
  simp [roundToEven, Nat.mul_div_cancel k hd, hd]

theorem roundToEven_le {k : Nat} (hd : 0 < d) (h : n ≤ k * d) : roundToEven n d ≤ k := by
  have hmono := roundToEven_mono hd hd (Nat.mul_le_mul_right d h)
  rwa [roundToEven_mul k hd] at hmono

theorem le_roundToEven_of_mul_le {k : Nat} (hd : 0 < d) (h : k * d ≤ n) :
    k ≤ roundToEven n d := by
  have hmono := roundToEven_mono hd hd (Nat.mul_le_mul_right d h)
  rwa [roundToEven_mul k hd] at hmono

theorem div_lt_iff_twoPow (k : Nat) (e : Int) (hd : 0 < d) :
    (n / d : ℚ) < k * 2 ^ e ↔ n * (twoPow e).2 < k * (d * (twoPow e).1) := by
  have hd₀ : (0 : ℚ) < d := by exact_mod_cast hd
  have hden : (0 : ℚ) < (twoPow e).2 := by exact_mod_cast twoPow_den_pos e
  rw [← twoPow_div, ← mul_div_assoc, div_lt_div_iff₀ hd₀ hden, mul_assoc, mul_comm ((twoPow e).1 : ℚ)]
  exact_mod_cast Iff.rfl

theorem twoPow_le_div_iff (e : Int) (hd : 0 < d) :
    d * (twoPow e).1 ≤ n * (twoPow e).2 ↔ (2 : ℚ) ^ e ≤ n / d := by
  have hlt := div_lt_iff_twoPow (n := n) 1 e hd
  rw [Nat.cast_one, one_mul, one_mul] at hlt
  rw [← not_lt, ← hlt, not_lt]

theorem log2_spec (hn : 0 < n) :
    (2 : ℚ) ^ (n.log2 : Int) ≤ n ∧ (n : ℚ) < 2 ^ ((n.log2 : Int) + 1) := by
  constructor
  · rw [zpow_natCast]
    exact_mod_cast Nat.log2_self_le hn.ne'
  · exact_mod_cast Nat.lt_log2_self

theorem exponentOf_spec (hn : 0 < n) (hd : 0 < d) :
    (2 : ℚ) ^ exponentOf n d ≤ n / d ∧ (n / d : ℚ) < 2 ^ (exponentOf n d + 1) := by
  have hd₀ : (0 : ℚ) < d := by exact_mod_cast hd
  obtain ⟨hn_le, hlt_n⟩ := log2_spec hn
  obtain ⟨hd_le, hlt_d⟩ := log2_spec hd
  unfold exponentOf
  dsimp only
  generalize he : (n.log2 : Int) - (d.log2 : Int) = e
  have hlow : (2 : ℚ) ^ (e - 1) ≤ n / d := by
    rw [le_div_iff₀ hd₀]
    calc (2 : ℚ) ^ (e - 1) * d ≤ 2 ^ (e - 1) * 2 ^ ((d.log2 : Int) + 1) :=
          mul_le_mul_of_nonneg_left hlt_d.le (by positivity)
      _ = 2 ^ (n.log2 : Int) := by
          rw [← zpow_add₀ two_ne_zero]
          congr 1
          omega
      _ ≤ n := hn_le
  have hhigh : (n / d : ℚ) < 2 ^ (e + 1) := by
    rw [div_lt_iff₀ hd₀]
    calc (n : ℚ) < 2 ^ ((n.log2 : Int) + 1) := hlt_n
      _ = 2 ^ (e + 1) * 2 ^ (d.log2 : Int) := by
          rw [← zpow_add₀ two_ne_zero]
          congr 1
          omega
      _ ≤ 2 ^ (e + 1) * d := mul_le_mul_of_nonneg_left hd_le (by positivity)
  split
  case isTrue h => exact ⟨(twoPow_le_div_iff e hd).1 h, hhigh⟩
  case isFalse h =>
    rw [twoPow_le_div_iff e hd, not_le] at h
    refine ⟨hlow, ?_⟩
    rwa [sub_add_cancel]

/-- The exponent of the last place when `n / d` is rounded. -/
def placeOf (n d : Nat) : Int := max (exponentOf n d - 52) (-1074)

theorem nearest_of_pos (hn : 0 < n) : nearest n d = (placeOf n d + 1074).toNat * perExponent +
    roundToEven (n * (twoPow (placeOf n d)).2) (d * (twoPow (placeOf n d)).1) :=
  if_neg hn.ne'

/-- The significand of a rounded number has at most 53 places, but for a carry. -/
theorem significand_le (hn : 0 < n) (hd : 0 < d) :
    roundToEven (n * (twoPow (placeOf n d)).2) (d * (twoPow (placeOf n d)).1) ≤
      2 * perExponent := by
  refine roundToEven_le (Nat.mul_pos hd (twoPow_num_pos _)) ?_
  refine ((div_lt_iff_twoPow _ _ hd).1 ((exponentOf_spec hn hd).2.trans_le ?_)).le
  have hplace : exponentOf n d + 1 ≤ 53 + placeOf n d := by
    unfold placeOf
    omega
  calc (2 : ℚ) ^ (exponentOf n d + 1) ≤ 2 ^ (53 + placeOf n d) :=
        zpow_le_zpow_right₀ one_le_two hplace
    _ = (2 * perExponent : Nat) * 2 ^ placeOf n d := by
        rw [zpow_add₀ two_ne_zero]
        norm_num [perExponent]

theorem le_significand (hn : 0 < n) (hd : 0 < d) (hplace : -1074 < placeOf n d) :
    perExponent ≤
      roundToEven (n * (twoPow (placeOf n d)).2) (d * (twoPow (placeOf n d)).1) := by
  refine le_roundToEven_of_mul_le (Nat.mul_pos hd (twoPow_num_pos _)) ?_
  rw [← not_lt, ← div_lt_iff_twoPow _ _ hd, not_lt]
  have hexp : exponentOf n d = 52 + placeOf n d := by
    unfold placeOf at hplace ⊢
    omega
  calc (perExponent : ℚ) * 2 ^ placeOf n d = 2 ^ exponentOf n d := by
        rw [hexp, zpow_add₀ two_ne_zero]
        norm_num [perExponent]
    _ ≤ n / d := (exponentOf_spec hn hd).1

theorem placeOf_mono (hn : 0 < n) (hd : 0 < d) (hn' : 0 < n') (hd' : 0 < d')
    (h : n * d' ≤ n' * d) : placeOf n d ≤ placeOf n' d' := by
  have hle : (n / d : ℚ) ≤ n' / d' := by
    rw [div_le_div_iff₀ (by exact_mod_cast hd) (by exact_mod_cast hd')]
    exact_mod_cast h
  have hlt : (2 : ℚ) ^ exponentOf n d < 2 ^ (exponentOf n' d' + 1) :=
    ((exponentOf_spec hn hd).1.trans hle).trans_lt (exponentOf_spec hn' hd').2
  have hexp := (zpow_lt_zpow_iff_right₀ one_lt_two).1 hlt
  unfold placeOf
  omega

theorem nearest_mono (hd : 0 < d) (hd' : 0 < d') (h : n * d' ≤ n' * d) :
    nearest n d ≤ nearest n' d' := by
  rcases Nat.eq_zero_or_pos n with rfl | hn
  · exact Nat.zero_le _
  have hn' : 0 < n' := by
    refine Nat.pos_of_ne_zero fun hzero => ?_
    have hpos := Nat.mul_pos hn hd'
    rw [hzero, Nat.zero_mul] at h
    omega
  have hplace := placeOf_mono hn hd hn' hd' h
  have hleast : -1074 ≤ placeOf n d := le_max_right _ _
  rw [nearest_of_pos hn, nearest_of_pos hn']
  rcases hplace.lt_or_eq with hlt | heq
  · have hsig := significand_le hn hd
    have hsig' := le_significand hn' hd' (by omega)
    have hstep : (placeOf n d + 1074).toNat + 1 ≤ (placeOf n' d' + 1074).toNat := by omega
    nlinarith
  · rw [heq]
    refine Nat.add_le_add_left (roundToEven_mono ?_ ?_ ?_) _
    · exact Nat.mul_pos hd (twoPow_num_pos _)
    · exact Nat.mul_pos hd' (twoPow_num_pos _)
    · generalize twoPow (placeOf n' d') = scale
      calc n * scale.2 * (d' * scale.1) = n * d' * (scale.2 * scale.1) := by ring
        _ ≤ n' * d * (scale.2 * scale.1) := Nat.mul_le_mul_right _ h
        _ = n' * scale.2 * (d * scale.1) := by ring

end Rounding

theorem quotient_mono {m m' : Nat} (h : m ≤ m') :
    (quotient m).1 * (quotient m').2 ≤ (quotient m').1 * (quotient m).2 := by
  have hden : ∀ m, (0 : ℚ) < (quotient m).2 := fun m => by exact_mod_cast quotient_den_pos m
  have hvalue := value_strictMono.monotone h
  rw [value, value, div_le_div_iff₀ (hden m) (hden m')] at hvalue
  exact_mod_cast hvalue

theorem nearestProduct_mono {a b a' b' : Nat} (ha : a ≤ a') (hb : b ≤ b') :
    nearestProduct a b ≤ nearestProduct a' b' := by
  refine nearest_mono ?_ ?_ ?_
  · exact Nat.mul_pos (quotient_den_pos a) (quotient_den_pos b)
  · exact Nat.mul_pos (quotient_den_pos a') (quotient_den_pos b')
  · calc (quotient a).1 * (quotient b).1 * ((quotient a').2 * (quotient b').2)
        = (quotient a).1 * (quotient a').2 * ((quotient b).1 * (quotient b').2) := by ring
      _ ≤ (quotient a').1 * (quotient a).2 * ((quotient b').1 * (quotient b).2) :=
          Nat.mul_le_mul (quotient_mono ha) (quotient_mono hb)
      _ = (quotient a').1 * (quotient b').1 * ((quotient a).2 * (quotient b).2) := by ring

theorem decode_pos {m : Nat} (h : 0 < m) : 0 < (decode m).1 := by
  have hsize : 0 < perExponent := by decide
  unfold decode
  split
  · exact h
  · exact Nat.add_pos_right _ hsize

theorem quotient_num_pos {m : Nat} (h : 0 < m) : 0 < (quotient m).1 :=
  Nat.mul_pos (decode_pos h) (twoPow_num_pos _)

theorem nearestQuotient_mono {a b a' b' : Nat} (ha : a ≤ a') (hb : b' ≤ b) (hpos : 0 < b') :
    nearestQuotient a b ≤ nearestQuotient a' b' := by
  refine nearest_mono ?_ ?_ ?_
  · exact Nat.mul_pos (quotient_den_pos a) (quotient_num_pos (Nat.lt_of_lt_of_le hpos hb))
  · exact Nat.mul_pos (quotient_den_pos a') (quotient_num_pos hpos)
  · calc (quotient a).1 * (quotient b).2 * ((quotient a').2 * (quotient b').1)
        = (quotient a).1 * (quotient a').2 * ((quotient b').1 * (quotient b).2) := by ring
      _ ≤ (quotient a').1 * (quotient a).2 * ((quotient b).1 * (quotient b').2) :=
          Nat.mul_le_mul (quotient_mono ha) (quotient_mono hb)
      _ = (quotient a').1 * (quotient b').2 * ((quotient a).2 * (quotient b).1) := by ring

theorem isFinite_ofMagnitude (negative : Bool) {m : Nat} (h : m < infinity) :
    (ofMagnitude negative m).isFinite = true := by
  have hinfinity : infinity = 9218868437227405312 := rfl
  have hsign : signBit = 9223372036854775808 := rfl
  have hbits : (if negative then signBit + m else m) < UInt64.size := by
    rw [UInt64.size]
    split <;> omega
  have hmagnitude : (ofMagnitude negative m).magnitude = m := by
    rw [magnitude, ofMagnitude, UInt64.toNat_ofNat_of_lt' hbits, hsign]
    split <;> omega
  rw [isFinite, hmagnitude, decide_eq_true h]

end TargetQuiz.Binary64

namespace TargetQuiz

/-- The approximation of a fraction is finite: it is no larger than that of the largest numerator
over one. -/
theorem Fraction.isFinite_approximate (f : Fraction) : f.approximate.isFinite = true := by
  have hnum : f.num.toInt.natAbs ≤ 9223372036854775808 := by
    have hle := f.num.le_toInt
    have hlt := f.num.toInt_lt
    omega
  have hden : 1 ≤ f.den.toInt.natAbs := by
    have hpos := f.den_pos
    omega
  have hbound : Binary64.nearestQuotient (Binary64.nearest 9223372036854775808 1)
      (Binary64.nearest 1 1) < Binary64.infinity := by decide +kernel
  refine Binary64.isFinite_ofMagnitude _ (Nat.lt_of_le_of_lt ?_ hbound)
  refine Binary64.nearestQuotient_mono ?_ ?_ (by decide +kernel)
  · exact Binary64.nearest_mono Nat.one_pos Nat.one_pos (by omega)
  · exact Binary64.nearest_mono Nat.one_pos Nat.one_pos (by omega)

end TargetQuiz

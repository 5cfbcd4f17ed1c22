import Mathlib.Tactic.Positivity
import TargetQuiz.Json.Basic
import TargetQuiz.Proofs.Binary64Order
import TargetQuiz.Proofs.Numerals

/-! What is written for a finite binary number need not read back as the same one, since reading
rounds more than once, but it always reads as some finite one. -/
namespace TargetQuiz
namespace Binary64

theorem tenPow_div (e : Int) : ((tenPow e).1 / (tenPow e).2 : ℚ) = 10 ^ e := by
  rw [← pow_toNat_div (by norm_num)]
  exact_mod_cast rfl

theorem tenPow_den_pos (e : Int) : 0 < (tenPow e).2 := Nat.pow_pos (by decide)

def Scientific.value (s : Scientific) : ℚ := s.digits * 10 ^ s.exponent

theorem Interval.contains_between {i : Interval} {digits : Nat} {exponent : Int}
    (h : i.contains digits exponent = true) :
    i.lower * i.num * (tenPow exponent).2 ≤ digits * (tenPow exponent).1 * i.den ∧
      digits * (tenPow exponent).1 * i.den ≤ i.upper * i.num * (tenPow exponent).2 := by
  unfold contains at h
  dsimp only at h
  split at h
  · exact of_decide_eq_true h
  · exact (of_decide_eq_true h).imp Nat.le_of_lt Nat.le_of_lt

theorem Interval.contains_of_neighbour? {i : Interval} {exponent : Int} {digits : Nat}
    (h : i.neighbour? exponent = some digits) : i.contains digits exponent = true := by
  unfold neighbour? at h
  dsimp only at h
  split at h
  case isTrue hnearest =>
    rw [Option.some.injEq] at h
    rwa [← h]
  case isFalse =>
    rw [Option.ite_none_right_eq_some, Option.some.injEq] at h
    obtain ⟨hfarther, h⟩ := h
    rwa [← h]

theorem Interval.shortestFrom_spec (i : Interval) (grids : Nat) (exponent : Int) :
    i.shortestFrom grids exponent = ⟨0, 0⟩ ∨
      i.contains (i.shortestFrom grids exponent).digits
        (i.shortestFrom grids exponent).exponent = true := by
  induction grids generalizing exponent with
  | zero => exact .inl rfl
  | succ grids ih =>
    unfold shortestFrom
    cases hnext : i.neighbour? exponent with
    | none => exact ih (exponent - 1)
    | some digits => exact .inr (contains_of_neighbour? hnext)

theorem interval_upper (m : Nat) :
    ((interval m).upper * (interval m).num / (interval m).den : ℚ) =
      (value m + value (m + 1)) / 2 := by
  have hupper : (interval m).upper = 4 * (decode m).1 + 2 := rfl
  have hnum : (interval m).num = (twoPow ((decode m).2 - 2)).1 := rfl
  have hden : (interval m).den = (twoPow ((decode m).2 - 2)).2 := rfl
  rw [hupper, hnum, hden, mul_div_assoc, twoPow_div, value_succ, value_eq,
    zpow_sub₀ two_ne_zero]
  push_cast
  ring

theorem interval_lower_pos {m : Nat} (h : 0 < m) : 0 < (interval m).lower * (interval m).num := by
  refine Nat.mul_pos ?_ (twoPow_num_pos _)
  have hpos := decode_pos h
  unfold interval
  dsimp only
  split <;> omega

/-- The shortest decimal of a positive magnitude is positive and at most the middle to the next
magnitude, unless it is the decimal zero. -/
theorem shortest_between (m : Nat) :
    shortest m = ⟨0, 0⟩ ∨ 0 < (shortest m).digits ∧
      (shortest m).value ≤ (value m + value (m + 1)) / 2 := by
  rcases Nat.eq_zero_or_pos m with rfl | hpos
  · exact .inl rfl
  have hshortest : ∃ grids exponent, shortest m = (interval m).shortestFrom grids exponent :=
    ⟨_, _, if_neg hpos.ne'⟩
  obtain ⟨grids, exponent, hshortest⟩ := hshortest
  refine ((interval m).shortestFrom_spec grids exponent).imp hshortest.trans fun hmem => ?_
  rw [← hshortest] at hmem
  obtain ⟨hlow, hhigh⟩ := Interval.contains_between hmem
  constructor
  · refine Nat.pos_of_ne_zero fun hzero => ?_
    have hlower := Nat.mul_pos (interval_lower_pos hpos) (tenPow_den_pos (shortest m).exponent)
    rw [hzero, Nat.zero_mul, Nat.zero_mul] at hlow
    omega
  · have hden : (0 : ℚ) < (tenPow (shortest m).exponent).2 := by
      exact_mod_cast tenPow_den_pos _
    have hscale : (0 : ℚ) < (interval m).den := by exact_mod_cast twoPow_den_pos _
    rw [Scientific.value, ← tenPow_div, ← interval_upper, ← mul_div_assoc,
      div_le_div_iff₀ hden hscale]
    exact_mod_cast hhigh

/-- The middle between the two greatest finite magnitudes, both of which are integers. -/
def greatestMiddle : Nat := ((quotient (infinity - 2)).1 + (quotient (infinity - 1)).1) / 2

theorem middle_le {m : Nat} (h : m + 1 < infinity) :
    (value m + value (m + 1)) / 2 ≤ greatestMiddle := by
  have hvalue := value_strictMono.monotone (show m ≤ infinity - 2 by omega)
  have hnext := value_strictMono.monotone (show m + 1 ≤ infinity - 1 by omega)
  have hden : (quotient (infinity - 2)).2 = 1 := by decide +kernel
  have hden' : (quotient (infinity - 1)).2 = 1 := by decide +kernel
  have hsum : (quotient (infinity - 2)).1 + (quotient (infinity - 1)).1 =
      greatestMiddle + greatestMiddle := by decide +kernel
  have htwice : value (infinity - 2) + value (infinity - 1) = greatestMiddle + greatestMiddle := by
    rw [value, value, hden, hden', Nat.cast_one, div_one, div_one]
    exact_mod_cast hsum
  linarith

end Binary64

namespace JsonNumber

open Binary64

theorem takeDigits_lt {s : Nat} (cs : List Char) (h : s < UInt64.size) :
    (takeDigits s cs).1 < UInt64.size := by
  induction cs generalizing s with
  | nil => exact h
  | cons c cs ih =>
    unfold takeDigits
    dsimp only
    split
    case isTrue hlonger => exact ih hlonger
    case isFalse => exact h

theorem length_takeDigits_le (s : Nat) (cs : List Char) :
    (takeDigits s cs).2.length ≤ cs.length := by
  induction cs generalizing s with
  | nil => exact Nat.le_refl _
  | cons c cs ih =>
    unfold takeDigits
    dsimp only
    split
    · exact (ih _).trans (Nat.le_succ _)
    · exact Nat.le_refl _

theorem takeDigits_mul_le (s : Nat) (cs : List Char) :
    (takeDigits s cs).1 * 10 ^ (takeDigits s cs).2.length ≤ Nat.ofDigitChars 10 cs s := by
  induction cs generalizing s with
  | nil => exact (Nat.mul_one s).le
  | cons c cs ih =>
    unfold takeDigits
    dsimp only
    split
    · exact ih _
    · rw [Nat.ofDigitChars_eq_ofDigitChars_zero, Nat.mul_comm]
      exact Nat.le_add_right _ _

theorem takeDigits_of_le {s : Nat} {cs : List Char} (hdigits : ∀ c ∈ cs, c.isDigit = true)
    (h : (s + 1) * 10 ^ cs.length ≤ UInt64.size) :
    (takeDigits s cs).2 = [] ∧ (takeDigits s cs).1 + 1 ≤ (s + 1) * 10 ^ cs.length := by
  induction cs generalizing s with
  | nil => simp [takeDigits]
  | cons c cs ih =>
    rw [List.forall_mem_cons] at hdigits
    have hdigit := Numeral.toNat_sub_le_of_isDigit hdigits.1
    rw [List.length_cons, Nat.pow_succ] at h ⊢
    have hstep : (10 * s + (c.toNat - '0'.toNat) + 1) * 10 ^ cs.length ≤
        (s + 1) * (10 ^ cs.length * 10) := by
      calc (10 * s + (c.toNat - '0'.toNat) + 1) * 10 ^ cs.length
          ≤ (10 * s + 9 + 1) * 10 ^ cs.length := Nat.mul_le_mul_right _ (by omega)
        _ = (s + 1) * (10 ^ cs.length * 10) := by ring
    have hlonger : 10 * s + (c.toNat - '0'.toNat) < UInt64.size :=
      (Nat.le_mul_of_pos_right _ (Nat.pow_pos (by decide))).trans (hstep.trans h)
    obtain ⟨hall, hle⟩ := ih hdigits.2 (hstep.trans h)
    unfold takeDigits
    dsimp only
    rw [if_pos hlonger]
    exact ⟨hall, hle.trans hstep⟩

theorem takeDigits_cons {s : Nat} {c : Char} (cs : List Char) (hc : c.isDigit = true)
    (hs : s + 1 ≤ 10 ^ 16) :
    takeDigits s (c :: cs) = takeDigits (10 * s + (c.toNat - '0'.toNat)) cs := by
  have hdigit := Numeral.toNat_sub_le_of_isDigit hc
  have hsize : UInt64.size = 18446744073709551616 := rfl
  exact if_pos (by omega)

theorem place_neg {n : JsonNumber} {digits : List Char} (hwhole : Digits n.whole)
    (hlength : n.whole.length ≤ 16) (hfraction : n.fraction = some digits)
    (hdigits : Digits digits) : n.significand.2 < 0 := by
  obtain ⟨c, cs, rfl⟩ := List.exists_cons_of_ne_nil hdigits.1
  have hpow : 10 ^ n.whole.length ≤ 10 ^ 16 := Nat.pow_le_pow_right (by decide) hlength
  have hsize : 10 ^ 16 ≤ UInt64.size := by decide
  obtain ⟨hall, hle⟩ := takeDigits_of_le (s := 0) hwhole.2 (by omega)
  have hfirst := takeDigits_cons cs (hdigits.2 c (by simp))
    (show (takeDigits 0 n.whole).1 + 1 ≤ 10 ^ 16 by omega)
  have hrest := length_takeDigits_le
    (10 * (takeDigits 0 n.whole).1 + (c.toNat - '0'.toNat)) cs
  unfold significand
  simp only [hall, hfraction, Option.getD_some, hfirst, List.length_nil, List.length_cons]
  omega

theorem isSome_scale?_of_neg {magnitude : Nat} {e : Int} (h : e < 0) :
    (scale? magnitude e).isSome = true := by
  rw [scale?, if_pos h]
  rfl

theorem isSome_magnitude?_of_fraction {n : JsonNumber} {digits : List Char}
    (hwhole : Digits n.whole) (hlength : n.whole.length ≤ 16)
    (hfraction : n.fraction = some digits) (hdigits : Digits digits)
    (hexponent : n.exponent = none) : n.magnitude?.isSome = true := by
  have hplace := place_neg hwhole hlength hfraction hdigits
  unfold magnitude?
  simp only [hexponent, hfraction, Option.isNone_some, Bool.false_and, Bool.false_eq_true, if_false]
  exact isSome_scale?_of_neg hplace

/-- The rounded product of a significand and a power of ten is finite, if the exact one is at most
the middle between the two greatest finite numbers. -/
theorem nearestProduct_lt {s p : Nat} (hs : s < UInt64.size) (hp : p ≤ maxTenPow)
    (h : s * 10 ^ p ≤ greatestMiddle) :
    nearestProduct (nearest s 1) (tenPowMagnitude p) < infinity := by
  have hfits : ∀ q < maxTenPow + 1, 288 ≤ q →
      nearestProduct (nearest (min (greatestMiddle / 10 ^ q) (UInt64.size - 1)) 1)
        (tenPowMagnitude q) < infinity := by decide +kernel
  -- below this power of ten the significand is bounded by its word alone
  have hword : UInt64.size - 1 ≤ greatestMiddle / 10 ^ 288 := by decide +kernel
  have hmax : max p 288 < maxTenPow + 1 := by
    have : 288 ≤ maxTenPow := by decide
    omega
  refine lt_of_le_of_lt (nearestProduct_mono ?_ ?_) (hfits (max p 288) hmax (le_max_right _ _))
  · refine nearest_mono Nat.one_pos Nat.one_pos (Nat.mul_le_mul_right 1 (le_min ?_ (by omega)))
    rcases le_total p 288 with hsmall | hlarge
    · rw [max_eq_right hsmall]
      omega
    · rw [max_eq_left hlarge]
      exact (Nat.le_div_iff_mul_le (Nat.pow_pos (by decide))).2 h
  · refine nearest_mono Nat.one_pos Nat.one_pos (Nat.mul_le_mul_right 1 ?_)
    exact Nat.pow_le_pow_right (by decide) (le_max_left _ _)

theorem isSome_scale? {s : Nat} {e : Int} (hs : s < UInt64.size) (he : e ≤ maxTenPow)
    (h : (s : ℚ) * 10 ^ e ≤ greatestMiddle) : (scale? (nearest s 1) e).isSome = true := by
  rcases Int.lt_or_le e 0 with hneg | hnonneg
  · exact isSome_scale?_of_neg hneg
  obtain ⟨p, rfl⟩ := Int.eq_ofNat_of_zero_le hnonneg
  have hp : p ≤ maxTenPow := by omega
  have hnat : s * 10 ^ p ≤ greatestMiddle := by
    rw [zpow_natCast] at h
    exact_mod_cast h
  unfold scale?
  rw [if_neg (by omega), if_neg (by rw [Int.toNat_natCast]; omega)]
  dsimp only
  rw [Int.toNat_natCast, if_pos (nearestProduct_lt hs hp hnat)]
  rfl

theorem significand_scientific {c : Char} (more : List Char) (negative : Bool)
    (exponent : Option (Bool × List Char)) (hc : c.isDigit = true) :
    significand ⟨negative, [c], if more.isEmpty then none else some more, exponent⟩ =
      ((takeDigits 0 (c :: more)).1,
        -((more.length - (takeDigits 0 (c :: more)).2.length : Nat) : Int)) := by
  have hfraction : (if more.isEmpty then none else some more : Option (List Char)).getD [] = more := by
    cases more <;> rfl
  have hone : takeDigits 0 [c] = (10 * 0 + (c.toNat - '0'.toNat), []) :=
    takeDigits_cons [] hc (by decide)
  have hall : takeDigits 0 (c :: more) = takeDigits (10 * 0 + (c.toNat - '0'.toNat)) more :=
    takeDigits_cons more hc (by decide)
  unfold significand
  simp only [hfraction, hone, hall, List.length_nil, Nat.cast_zero, Int.zero_sub]

theorem exponent_le {q : Int} (h : (10 : ℚ) ^ q ≤ greatestMiddle) : q ≤ maxTenPow := by
  have hlarge : greatestMiddle < 10 ^ (maxTenPow + 1) := by decide +kernel
  have hlt : (10 : ℚ) ^ q < 10 ^ ((maxTenPow + 1 : Nat) : Int) := by
    rw [zpow_natCast]
    exact h.trans_lt (by exact_mod_cast hlarge)
  have := (zpow_lt_zpow_iff_right₀ (by norm_num)).1 hlt
  omega

theorem length_add_le {digits : Nat} {exponent : Int} {c : Char} {more : List Char}
    (hpos : 0 < digits) (hdigits : Numeral.ofNat digits = c :: more)
    (hvalue : (digits : ℚ) * 10 ^ exponent ≤ greatestMiddle) :
    more.length + exponent ≤ maxTenPow := by
  have hpow : 10 ^ more.length ≤ digits := by
    have hpow := Numeral.pow_length_le hpos
    rwa [hdigits, List.length_cons, Nat.add_sub_cancel] at hpow
  refine exponent_le (le_trans ?_ hvalue)
  rw [zpow_add₀ (by norm_num), zpow_natCast]
  exact mul_le_mul_of_nonneg_right (by exact_mod_cast hpow) (by positivity)

theorem taken_value_le (digits : Nat) (exponent : Int) :
    ((takeDigits 0 (Numeral.ofNat digits)).1 : ℚ) *
        10 ^ (((takeDigits 0 (Numeral.ofNat digits)).2.length : Int) + exponent) ≤
      digits * 10 ^ exponent := by
  have htaken := takeDigits_mul_le 0 (Numeral.ofNat digits)
  have hread : Nat.ofDigitChars 10 (Numeral.ofNat digits) 0 = digits := Numeral.value_ofNat digits
  rw [hread] at htaken
  rw [zpow_add₀ (by norm_num), zpow_natCast, ← mul_assoc]
  exact mul_le_mul_of_nonneg_right (by exact_mod_cast htaken) (by positivity)

theorem isSome_magnitude?_scientific {digits : Nat} {exponent : Int} {c : Char} {more : List Char}
    (negative : Bool) (hpos : 0 < digits) (hdigits : Numeral.ofNat digits = c :: more)
    (hvalue : (digits : ℚ) * 10 ^ exponent ≤ greatestMiddle) :
    (magnitude? ⟨negative, [c], if more.isEmpty then none else some more,
      some (decide (more.length + exponent < 0),
        Numeral.padded exponentDigits (more.length + exponent).natAbs)⟩).isSome = true := by
  have hc : c.isDigit = true := Numeral.isDigit_of_mem_ofNat (n := digits) (by simp [hdigits])
  have hfits : (takeDigits 0 (c :: more)).1 < UInt64.size := takeDigits_lt _ (by decide)
  have hlength := length_takeDigits_le 0 (c :: more)
  have htaken := (taken_value_le digits exponent).trans hvalue
  have hleast := length_add_le hpos hdigits hvalue
  have hmax : maxTenPow < maxExponent := by decide
  have hmaxTen : maxTenPow = 308 := rfl
  rw [hdigits] at htaken
  rw [List.length_cons] at hlength
  unfold magnitude?
  simp only [significand_scientific more negative _ hc, Numeral.value_padded]
  generalize (takeDigits 0 (c :: more)).1 = s at *
  generalize (takeDigits 0 (c :: more)).2.length = unread at *
  rcases Int.lt_or_le (more.length + exponent) 0 with hneg | hnonneg
  · rw [decide_eq_true hneg]
    split
    · rfl
    · refine isSome_scale?_of_neg ?_
      simp only [placeSum, if_true]
      omega
  · rw [decide_eq_false (by omega), if_neg (by omega)]
    simp only [Bool.false_eq_true, if_false]
    generalize hplace : placeSum _ _ = place
    rcases Int.lt_or_le place 0 with hdown | hup
    · exact isSome_scale?_of_neg hdown
    -- the exponent counts from the last digit that was taken
    have hle : place ≤ unread + exponent ∧ place ≤ more.length + exponent := by
      unfold placeSum at hplace
      omega
    refine isSome_scale? hfits (by omega) (le_trans ?_ htaken)
    exact mul_le_mul_of_nonneg_left (zpow_le_zpow_right₀ (by norm_num) hle.1) (by positivity)

theorem isSome_magnitude?_layOut {digits : Nat} {exponent : Int} (negative : Bool)
    (hzero : digits = 0 → exponent = 0)
    (hvalue : (digits : ℚ) * 10 ^ exponent ≤ greatestMiddle) :
    (layOut negative (Numeral.ofNat digits) exponent).magnitude?.isSome = true := by
  have hdigits := Digits.ofNat digits
  have hplaces : positionalDigits = 16 := rfl
  unfold layOut
  dsimp only
  split
  case isTrue hinteger =>
    refine isSome_magnitude?_of_fraction hdigits.append_zeros ?_ rfl (Digits.ofNat 0) rfl
    rw [List.length_append, List.length_replicate]
    omega
  case isFalse hpoint =>
  split
  case isTrue hinside =>
    refine isSome_magnitude?_of_fraction (hdigits.take (by omega)) ?_ rfl
      (hdigits.drop (by omega)) rfl
    rw [List.length_take]
    omega
  case isFalse houtside =>
  split
  case isTrue hbelow =>
    exact isSome_magnitude?_of_fraction (Digits.ofNat 0) (Nat.le_add_left 1 15) rfl
      hdigits.zeros_append rfl
  case isFalse habove =>
    obtain ⟨c, more, hcons⟩ := List.exists_cons_of_ne_nil (Numeral.ofNat_ne_nil digits)
    have hpos : 0 < digits := by
      refine Nat.pos_of_ne_zero fun h => hpoint ?_
      rw [hzero h, h]
      decide
    have hplace : ((Numeral.ofNat digits).length : Int) + exponent - 1 =
        more.length + exponent := by
      rw [hcons, List.length_cons]
      omega
    rw [hplace, hcons]
    exact isSome_magnitude?_scientific negative hpos hcons hvalue

/-- Whatever is written for a finite binary number is read as a finite binary number. -/
theorem isSome_binary64?_ofBinary64 (x : Binary64) (h : x.isFinite = true) :
    (ofBinary64 x).binary64?.isSome = true := by
  have hfinite : x.magnitude < infinity := of_decide_eq_true h
  rw [binary64?, Option.isSome_map]
  rcases Nat.lt_or_ge (x.magnitude + 1) infinity with hlt | hge
  · have hshortest := shortest_between x.magnitude
    refine isSome_magnitude?_layOut _ ?_ ?_
    · rcases hshortest with hzero | ⟨hpos, -⟩
      · rw [hzero]
        exact fun _ => rfl
      · exact fun hzero => absurd hzero hpos.ne'
    · rcases hshortest with hzero | ⟨-, hvalue⟩
      · rw [hzero, Nat.cast_zero, zero_mul]
        exact Nat.cast_nonneg _
      · exact hvalue.trans (middle_le hlt)
  · -- the decimal of the greatest number is read just below the middle to infinity
    have hgreatest : x.magnitude = infinity - 1 := by omega
    have hread : ∀ negative, (layOut negative (Numeral.ofNat (shortest (infinity - 1)).digits)
        (shortest (infinity - 1)).exponent).magnitude?.isSome = true := by decide +kernel
    unfold ofBinary64
    rw [hgreatest]
    exact hread _

end JsonNumber
end TargetQuiz

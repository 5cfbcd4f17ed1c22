import Mathlib.Tactic.FieldSimp
import TargetQuiz.Display
import TargetQuiz.Proofs.ExpressionAcceptance
import TargetQuiz.Proofs.ExpressionMixed
import TargetQuiz.Proofs.Numerals

/-! A text is one of four notations at most, with a sign in front, and the display of a target
denotes exactly the target. So two targets never share a display. -/
namespace TargetQuiz.Display

open Expression

inductive Notation where
  | integer (digits : List Char)
  | decimal (whole places : List Char)
  | quotient (num den : List Char)
  | mixed (whole num den : List Char)
  deriving DecidableEq, Repr

namespace Notation

def text : Notation → List Char
  | integer digits => digits
  | decimal whole places => whole ++ '.' :: places
  | quotient num den => num ++ '/' :: den
  | mixed whole num den => whole ++ ' ' :: (num ++ '/' :: den)

def value : Notation → ℚ
  | integer digits => Numeral.value digits
  | decimal whole places => Numeral.value whole + Numeral.value places / 10 ^ places.length
  | quotient num den => Numeral.value num / Numeral.value den
  | mixed whole num den => Numeral.value whole + Numeral.value num / Numeral.value den

def WellFormed : Notation → Prop
  | integer digits => IsRun digits
  | decimal whole places => IsRun whole ∧ IsRun places
  | quotient num den => IsRun num ∧ IsRun den ∧ Numeral.value den ≠ 0
  | mixed whole num den => IsRun whole ∧ IsRun num ∧ IsRun den ∧ Numeral.value den ≠ 0

def IsDecimal : Notation → Prop
  | decimal _ _ => True
  | _ => False

def IsMixed : Notation → Prop
  | mixed _ _ _ => True
  | _ => False

def signedValue (negative : Bool) (n : Notation) : ℚ := if negative then -n.value else n.value

end Notation

/-- The text is the notation, behind a minus sign or not. -/
structure Shows (cs : List Char) (negative : Bool) (n : Notation) : Prop where
  wellFormed : n.WellFormed
  text : cs = minus negative ++ n.text

/-! Each text is one notation at most. -/

namespace Notation

def front : Notation → List Char × List Char
  | integer digits => (digits, [])
  | decimal whole places => (whole, '.' :: places)
  | quotient num den => (num, '/' :: den)
  | mixed whole num den => (whole, ' ' :: (num ++ '/' :: den))

theorem text_eq_front (n : Notation) : n.text = n.front.1 ++ n.front.2 := by
  cases n <;> simp [text, front]

theorem WellFormed.isRun_front {n : Notation} (h : n.WellFormed) : IsRun n.front.1 := by
  cases n <;> simp_all [WellFormed, front]

theorem stops_front (n : Notation) : Stops n.front.2 := by
  cases n <;> simp [front, Stops]

theorem text_injective {n n' : Notation} (h : n.WellFormed) (h' : n'.WellFormed)
    (htext : n.text = n'.text) : n = n' := by
  rw [text_eq_front, text_eq_front] at htext
  obtain ⟨hrun, hrest⟩ := run_append_inj h.isRun_front h'.isRun_front n.stops_front n'.stops_front
    htext
  cases n <;> cases n' <;> simp [front] at hrun hrest
  · rw [hrun]
  · rw [hrun, hrest]
  · rw [hrun, hrest]
  · -- the numerator of a mixed number ends at its slash
    obtain ⟨-, hnum, -, -⟩ := h
    obtain ⟨-, hnum', -, -⟩ := h'
    obtain ⟨rfl, hden⟩ := run_append_inj hnum hnum' (stops_slash _) (stops_slash _) hrest
    simp_all

theorem WellFormed.text_ne_minus {n : Notation} (h : n.WellFormed) (cs : List Char) :
    n.text ≠ '-' :: cs := by
  intro heq
  refine h.isRun_front.not_stops n.front.2 ?_
  rw [← text_eq_front, heq]
  rfl

end Notation

theorem Shows.unique {cs : List Char} {negative negative' : Bool} {n n' : Notation}
    (h : Shows cs negative n) (h' : Shows cs negative' n') : negative = negative' ∧ n = n' := by
  have htext := h.text.symm.trans h'.text
  cases negative <;> cases negative' <;> simp [minus] at htext
  · exact ⟨rfl, Notation.text_injective h.wellFormed h'.wellFormed htext⟩
  · exact absurd htext (h.wellFormed.text_ne_minus _)
  · exact absurd htext.symm (h'.wellFormed.text_ne_minus _)
  · exact ⟨rfl, Notation.text_injective h.wellFormed h'.wellFormed htext⟩

/-! What a rule chooses. -/

def places : DisplayRule → Nat
  | .wholeNumber => 0
  | .tenthsOrFraction => 1
  | .hundredthsOrMixed => 2

section Choice

variable {f : Fraction} {rule : DisplayRule} {n : Notation}

/-- The notation that a rule chooses for the magnitude of a fraction. -/
inductive Chosen (f : Fraction) (rule : DisplayRule) : Notation → Prop
  | integer (hden : f.den.toInt = 1) :
      Chosen f rule (.integer (Numeral.ofNat f.num.toInt.natAbs))
  | decimal (hden : f.den.toInt = Nat.pow 10 (places rule)) :
      Chosen f rule (.decimal (Numeral.ofNat (f.num.toInt.natAbs / Nat.pow 10 (places rule)))
        (Numeral.padded (places rule) (f.num.toInt.natAbs % Nat.pow 10 (places rule))))
  | quotient (hden : f.den.toInt ≠ Nat.pow 10 (places rule)) :
      Chosen f rule (.quotient (Numeral.ofNat f.num.toInt.natAbs)
        (Numeral.ofNat f.den.toInt.natAbs))
  | mixed (hrule : rule = .hundredthsOrMixed) (hden : f.den.toInt ≠ Nat.pow 10 (places rule)) :
      Chosen f rule (.mixed (Numeral.ofNat (f.num.toInt.natAbs / f.den.toInt.natAbs))
        (Numeral.ofNat (f.num.toInt.natAbs % f.den.toInt.natAbs))
        (Numeral.ofNat f.den.toInt.natAbs))

theorem sign_eq (f : Fraction) : sign f = minus (decide (f.num.toInt < 0)) := by
  have hiff : f.num < 0 ↔ f.num.toInt < 0 := Int64.lt_iff_toInt_lt
  by_cases h : f.num.toInt < 0 <;> simp [sign, hiff, h, minus]

theorem dropTrailing_concat {c d : Char} (h : d ≠ c) (cs : List Char) :
    dropTrailing c (cs ++ [d]) = cs ++ [d] := by
  simp [dropTrailing, h]

theorem digitChar_ne {d : Nat} (h : d < 10) (hne : d ≠ 0) :
    d.digitChar ≠ '0' ∧ d.digitChar ≠ '.' := by
  revert hne
  revert d
  decide

/-- In lowest terms the last place behind the point is not zero. -/
theorem trimDecimal_decimal (hden : f.den = 100) : trimDecimal (decimal f 2) = decimal f 2 := by
  obtain ⟨cs, hcs⟩ := Numeral.exists_padded_eq_concat 2 (f.num.toInt.natAbs % 100)
  have hten : f.num.toInt.natAbs % 100 % 10 ≠ 0 := by
    intro hzero
    have hreduced := f.reduced
    have hboth := Nat.dvd_gcd (k := 10) (m := f.num.toInt.natAbs) (n := f.den.toInt.natAbs)
      (by omega) (by rw [hden]; decide)
    rw [hreduced] at hboth
    exact absurd hboth (by decide)
  obtain ⟨hnonzero, hpoint⟩ := digitChar_ne (Nat.mod_lt _ (by decide)) hten
  have hlast : decimal f 2 = sign f ++ Numeral.ofNat (f.num.toInt.natAbs / Nat.pow 10 2) ++ ['.'] ++
      cs ++ [(f.num.toInt.natAbs % 100 % 10).digitChar] := by
    rw [List.append_assoc, ← hcs]
    rfl
  have hmem : '.' ∈ decimal f 2 := by simp [decimal]
  rw [trimDecimal, if_pos hmem, hlast, dropTrailing_concat hnonzero, dropTrailing_concat hpoint]

theorem decimal_eq (f : Fraction) (places : Nat) :
    decimal f places = minus (decide (f.num.toInt < 0)) ++
      (Notation.decimal (Numeral.ofNat (f.num.toInt.natAbs / Nat.pow 10 places))
        (Numeral.padded places (f.num.toInt.natAbs % Nat.pow 10 places))).text := by
  simp [decimal, sign_eq, Notation.text]

theorem den_tenths : f.den.toInt = Nat.pow 10 (places .tenthsOrFraction) ↔ f.den = 10 :=
  Int64.toInt_inj (x := f.den) (y := 10)

theorem den_hundredths : f.den.toInt = Nat.pow 10 (places .hundredthsOrMixed) ↔ f.den = 100 :=
  Int64.toInt_inj (x := f.den) (y := 100)

theorem exists_chosen_tenths (f : Fraction) :
    ∃ n, Chosen f .tenthsOrFraction n ∧
      chars f .tenthsOrFraction = minus (decide (f.num.toInt < 0)) ++ n.text := by
  by_cases hwhole : f.isWhole = true
  · have hone : f.den.toInt = 1 := by simp [eq_of_beq hwhole]
    exact ⟨_, .integer hone, by simp [chars, hwhole, ofInt_eq, Notation.text]⟩
  · by_cases hden : f.den = 10
    · refine ⟨_, .decimal (den_tenths.2 hden), ?_⟩
      rw [chars, if_neg hwhole, if_pos hden]
      exact decimal_eq f 1
    · have hpos : ¬f.den.toInt < 0 := Int.not_lt.2 (Int.le_of_lt f.den_pos)
      refine ⟨_, .quotient fun h => hden (den_tenths.1 h), ?_⟩
      simp [chars, hwhole, hden, ofInt_eq, hpos, minus, Notation.text]

theorem exists_chosen_hundredths (f : Fraction) :
    ∃ n, Chosen f .hundredthsOrMixed n ∧
      chars f .hundredthsOrMixed = minus (decide (f.num.toInt < 0)) ++ n.text := by
  by_cases hwhole : f.isWhole = true
  · have hone : f.den.toInt = 1 := by simp [eq_of_beq hwhole]
    exact ⟨_, .integer hone, by simp [chars, hwhole, ofInt_eq, Notation.text]⟩
  · by_cases hden : f.den = 100
    · refine ⟨_, .decimal (den_hundredths.2 hden), ?_⟩
      rw [chars, if_neg hwhole, if_pos hden, trimDecimal_decimal hden]
      exact decimal_eq f 2
    · by_cases hproper : f.num.toInt.natAbs / f.den.toInt.natAbs = 0
      · have hpos := f.den_pos
        have hlt : f.num.toInt.natAbs < f.den.toInt.natAbs := by
          rcases Nat.div_eq_zero_iff.1 hproper with hzero | hlt
          · omega
          · exact hlt
        refine ⟨_, .quotient fun h => hden (den_hundredths.1 h), ?_⟩
        simp [chars, hwhole, hden, mixed, hproper, Nat.mod_eq_of_lt hlt, sign_eq, Notation.text]
      · refine ⟨_, .mixed rfl fun h => hden (den_hundredths.1 h), ?_⟩
        simp [chars, hwhole, hden, mixed, hproper, sign_eq, Notation.text]

theorem exists_chosen (f : Fraction) (hrule : rule ≠ .wholeNumber) :
    ∃ n, Chosen f rule n ∧ chars f rule = minus (decide (f.num.toInt < 0)) ++ n.text := by
  cases rule with
  | wholeNumber => exact absurd rfl hrule
  | tenthsOrFraction => exact exists_chosen_tenths f
  | hundredthsOrMixed => exact exists_chosen_hundredths f

theorem div_add_mod_div (m : Nat) {s : Nat} (hs : s ≠ 0) :
    ((m / s : Nat) : ℚ) + ((m % s : Nat) : ℚ) / s = m / s := by
  have hcast : (s : ℚ) ≠ 0 := Nat.cast_ne_zero.2 hs
  field_simp
  exact_mod_cast Nat.div_add_mod' m s

namespace Chosen

theorem wellFormed (h : Chosen f rule n) : n.WellFormed := by
  have hden : Numeral.value (Numeral.ofNat f.den.toInt.natAbs) ≠ 0 := by
    have hpos := f.den_pos
    rw [Numeral.value_ofNat]
    omega
  cases h with
  | integer => exact Digits.ofNat _
  | decimal => exact ⟨Digits.ofNat _, Digits.padded _ _⟩
  | quotient => exact ⟨Digits.ofNat _, Digits.ofNat _, hden⟩
  | mixed => exact ⟨Digits.ofNat _, Digits.ofNat _, Digits.ofNat _, hden⟩

theorem isDecimal_iff (hrule : rule ≠ .wholeNumber) (h : Chosen f rule n) :
    n.IsDecimal ↔ f.den.toInt = Nat.pow 10 (places rule) := by
  cases h with
  | integer hden =>
    refine iff_of_false not_false fun heq => ?_
    rw [hden] at heq
    cases rule with
    | wholeNumber => exact hrule rfl
    | tenthsOrFraction => exact absurd heq (by decide)
    | hundredthsOrMixed => exact absurd heq (by decide)
  | decimal hden => exact iff_of_true trivial hden
  | quotient hden => exact iff_of_false not_false hden
  | mixed _ hden => exact iff_of_false not_false hden

theorem eq_of_isMixed (h : Chosen f rule n) (hmixed : n.IsMixed) : rule = .hundredthsOrMixed := by
  cases h with
  | integer => exact absurd hmixed not_false
  | decimal => exact absurd hmixed not_false
  | quotient => exact absurd hmixed not_false
  | mixed hrule => exact hrule

theorem value_eq (hrule : rule ≠ .wholeNumber) (h : Chosen f rule n) :
    n.value = (f.num.toInt.natAbs : ℚ) / f.den.toInt.natAbs := by
  have hpos := f.den_pos
  cases h with
  | integer hden => simp [Notation.value, Numeral.value_ofNat, hden]
  | decimal hden =>
    have hplaces : 0 < places rule := by
      cases rule with
      | wholeNumber => exact absurd rfl hrule
      | tenthsOrFraction => decide
      | hundredthsOrMixed => decide
    have hscale : Nat.pow 10 (places rule) = 10 ^ places rule := rfl
    have htenpow : 0 < 10 ^ places rule := Nat.pow_pos (by decide)
    have hlength := Numeral.length_padded hplaces (Nat.mod_lt f.num.toInt.natAbs htenpow)
    have hnat : f.den.toInt.natAbs = 10 ^ places rule := by rw [hden, hscale, Int.natAbs_natCast]
    rw [hscale, hnat]
    simp only [Notation.value, Numeral.value_ofNat, Numeral.value_padded, hlength]
    exact_mod_cast div_add_mod_div f.num.toInt.natAbs htenpow.ne'
  | quotient => simp [Notation.value, Numeral.value_ofNat]
  | mixed =>
    simp only [Notation.value, Numeral.value_ofNat]
    exact div_add_mod_div f.num.toInt.natAbs (by omega)

end Chosen

theorem toRat_eq_signed (f : Fraction) :
    f.toRat = if f.num.toInt < 0 then -((f.num.toInt.natAbs : ℚ) / f.den.toInt.natAbs)
      else (f.num.toInt.natAbs : ℚ) / f.den.toInt.natAbs := by
  have hden : (f.den.toInt : ℚ) = f.den.toInt.natAbs := by
    rw [← Int.cast_natCast, Int.natAbs_of_nonneg (Int.le_of_lt f.den_pos)]
  rw [f.toRat_eq_div, hden]
  split
  · rename_i hneg
    have hnum : f.num.toInt = -(f.num.toInt.natAbs : Int) := by omega
    rw [hnum, Int.natAbs_neg, Int.natAbs_natCast, Int.cast_neg, Int.cast_natCast, neg_div]
  · rename_i hnonneg
    rw [← Int.cast_natCast f.num.toInt.natAbs, Int.natAbs_of_nonneg (Int.not_lt.1 hnonneg)]

theorem signedValue_of_chosen (hrule : rule ≠ .wholeNumber) (h : Chosen f rule n) :
    n.signedValue (decide (f.num.toInt < 0)) = f.toRat := by
  simp [Notation.signedValue, h.value_eq hrule, toRat_eq_signed]

end Choice

theorem point_mem_iff {negative : Bool} {n : Notation} (h : n.WellFormed) :
    '.' ∈ minus negative ++ n.text ↔ n.IsDecimal := by
  have hminus : '.' ∉ minus negative := by cases negative <;> simp [minus]
  have hpoint : '.'.isDigit = false := rfl
  cases n with
  | integer digits =>
    simpa [hminus, Notation.text, Notation.IsDecimal] using IsRun.not_mem h hpoint
  | decimal whole places => simp [Notation.text, Notation.IsDecimal]
  | quotient num den =>
    simp [hminus, Notation.text, Notation.IsDecimal, h.1.not_mem hpoint,
      h.2.1.not_mem hpoint]
  | mixed whole num den =>
    simp [hminus, Notation.text, Notation.IsDecimal, h.1.not_mem hpoint,
      h.2.1.not_mem hpoint, h.2.2.1.not_mem hpoint]

/-! Displays as answers. -/

theorem ofNat_natAbs {z : Int} (h : 0 ≤ z) : Numeral.ofNat z.natAbs = Numeral.ofInt z :=
  (if_neg (Int.not_lt.2 h)).symm

theorem evaluateFreely_operand {o : Operand} {value : Fraction} (h : o.Legible)
    (hvalue : o.value = .ok value) : evaluateFreely (String.ofList o.text) = .ok value :=
  (Infix.single (.operand o)).evaluateFreely_text h hvalue

theorem typed_mixed {whole num den : List Char} (hwhole : IsRun whole) (hnum : IsRun num)
    (hden : IsRun den) :
    Typed [.mixed whole num den] (Notation.mixed whole num den).text := by
  have hnext : MarkNext [] := by simp [MarkNext]
  have hspace : ∀ c ∈ [' '], isMixedSeparator c = true := by simp [isMixedSeparator]
  have hslash : plainSign '/' = '/' := rfl
  simpa [Notation.text] using
    Typed.mixed hwhole (List.cons_ne_nil _ _) hspace hnum hslash hden hnext .nil

/-- The floor of a fraction and its rest as a sum. -/
def floorAndRest (f : Fraction) : Infix .sum :=
  .binary .add (.single (.operand (.integer f.floor)))
    (.factor (.group (.single (.operand (.ratio f.fractionalPart.num f.fractionalPart.den)))))

theorem floorAndRest_text {f : Fraction} (hnum : 0 ≤ f.num.toInt) :
    (floorAndRest f).text =
      sumText (Numeral.ofNat (f.num.toInt.natAbs / f.den.toInt.natAbs))
        (Numeral.ofNat (f.num.toInt.natAbs % f.den.toInt.natAbs))
        (Numeral.ofNat f.den.toInt.natAbs) := by
  have hrest := f.fractionalPart_den
  rw [← Int.natAbs_ediv_of_nonneg hnum, ← Int.natAbs_emod_of_nonneg hnum, ← f.toInt_floor,
    ← f.toInt_fractionalPart_num, ofNat_natAbs (Fraction.floor_nonneg hnum),
    ofNat_natAbs f.fractionalPart_num_nonneg, ofNat_natAbs (Int.le_of_lt f.den_pos)]
  simp [floorAndRest, Infix.single, Infix.text, Operand.text, Operator.symbol, sumText, hrest]

theorem evaluateFreely_floorAndRest {f : Fraction} (hnum : 0 ≤ f.num.toInt) :
    evaluateFreely (String.ofList (floorAndRest f).text) = .ok f := by
  have hrest := minValue_lt_of_nonneg f.fractionalPart_num_nonneg
  have hden := Int.le_of_lt f.fractionalPart.den_pos
  refine (floorAndRest f).evaluateFreely_text
    ⟨minValue_lt_of_nonneg (Fraction.floor_nonneg hnum), ⟨hrest, hden⟩, nofun⟩ ?_
  refine Tree.eval_node (a := Fraction.whole f.floor) rfl
    (Tree.eval_ratio f.fractionalPart.den_pos f.fractionalPart.toRat_eq_div) ?_
  rw [Operator.exact, Fraction.toRat_whole, ← f.toRat_eq_floor_add]

theorem Chosen.evaluateFreely {f : Fraction} {rule : DisplayRule} {n : Notation}
    (h : Chosen f rule n) (hnum : 0 ≤ f.num.toInt) (hpoint : ¬n.IsDecimal) :
    evaluateFreely (String.ofList n.text) = .ok f := by
  have hleast := minValue_lt_of_nonneg hnum
  have hden := Int.le_of_lt f.den_pos
  cases h with
  | integer hone =>
    have hwhole : f.isWhole = true := by
      rw [Fraction.isWhole, beq_iff_eq, ← Int64.toInt_inj, hone]
      rfl
    have hvalue : Fraction.whole f.num = f :=
      Fraction.toRat_injective (by rw [Fraction.toRat_whole, Fraction.toRat_of_isWhole hwhole])
    rw [Notation.text, ofNat_natAbs hnum]
    exact evaluateFreely_operand (o := .integer f.num) hleast (congrArg _ hvalue)
  | decimal => exact absurd trivial hpoint
  | quotient =>
    rw [Notation.text, ofNat_natAbs hnum, ofNat_natAbs hden]
    exact evaluateFreely_operand (o := .ratio f.num f.den) ⟨hleast, hden⟩
      (Tree.eval_ratio f.den_pos f.toRat_eq_div)
  | mixed =>
    have htyped := typed_mixed (Digits.ofNat (f.num.toInt.natAbs / f.den.toInt.natAbs))
      (Digits.ofNat (f.num.toInt.natAbs % f.den.toInt.natAbs)) (Digits.ofNat f.den.toInt.natAbs)
    rw [← String.toList_ofList (l := Notation.text _)] at htyped
    rw [htyped.evaluateFreely_eq, List.flatMap_singleton, Item.text, ← floorAndRest_text hnum]
    exact evaluateFreely_floorAndRest hnum

theorem exists_shows (f : Fraction) {rule : DisplayRule} (hrule : rule ≠ .wholeNumber) :
    ∃ n, Chosen f rule n ∧ Shows (f.display rule).toList (decide (f.num.toInt < 0)) n := by
  obtain ⟨n, hchosen, htext⟩ := exists_chosen f hrule
  refine ⟨n, hchosen, hchosen.wellFormed, ?_⟩
  rw [Fraction.display, String.toList_ofList, htext]

theorem Shows.signedValue_eq {f : Fraction} {rule : DisplayRule} (hrule : rule ≠ .wholeNumber)
    {negative : Bool} {n : Notation} (h : Shows (f.display rule).toList negative n) :
    n.signedValue negative = f.toRat := by
  obtain ⟨m, hchosen, hshows⟩ := exists_shows f hrule
  obtain ⟨rfl, rfl⟩ := h.unique hshows
  exact signedValue_of_chosen hrule hchosen

theorem display_injective {f g : Fraction} {rule rule' : DisplayRule}
    (hrule : rule ≠ .wholeNumber) (hrule' : rule' ≠ .wholeNumber)
    (h : g.display rule' = f.display rule) : g = f := by
  obtain ⟨n, -, hshows⟩ := exists_shows f hrule
  have hother := hshows
  rw [← h] at hother
  exact Fraction.toRat_injective
    ((hother.signedValue_eq hrule').symm.trans (hshows.signedValue_eq hrule))

theorem den_eq_iff {f : Fraction} {rule : DisplayRule} (hrule : rule ≠ .wholeNumber) :
    f.den.toInt = Nat.pow 10 (places rule) ↔
      (rule = .tenthsOrFraction ∧ f.den = 10) ∨ (rule = .hundredthsOrMixed ∧ f.den = 100) := by
  cases rule with
  | wholeNumber => exact absurd rfl hrule
  | tenthsOrFraction => rw [den_tenths]; simp
  | hundredthsOrMixed => rw [den_hundredths]; simp

/-- No display lies. It shows one of the notations, a mixed number under the rule for hundredths
only, and however it is read it denotes the target, so no other target has it. It has a decimal
point exactly when the denominator is the one that the rule shows as a decimal. Without a point,
that of a target which is not negative is an answer with the target as its value. -/
theorem display_exact (f : Fraction) {rule : DisplayRule} (hrule : rule ≠ .wholeNumber) :
    (∃ negative n, Shows (f.display rule).toList negative n ∧
      (n.IsMixed → rule = .hundredthsOrMixed)) ∧
    (∀ negative n, Shows (f.display rule).toList negative n →
      n.signedValue negative = f.toRat) ∧
    (∀ (g : Fraction) (rule' : DisplayRule), rule' ≠ .wholeNumber →
      g.display rule' = f.display rule → g = f) ∧
    ('.' ∈ (f.display rule).toList ↔
      (rule = .tenthsOrFraction ∧ f.den = 10) ∨ (rule = .hundredthsOrMixed ∧ f.den = 100)) ∧
    (0 ≤ f.num → '.' ∉ (f.display rule).toList → evaluateFreely (f.display rule) = .ok f) := by
  obtain ⟨n, hchosen, hshows⟩ := exists_shows f hrule
  have hpoint : '.' ∈ (f.display rule).toList ↔ n.IsDecimal := by
    rw [hshows.text]
    exact point_mem_iff hchosen.wellFormed
  refine ⟨⟨_, n, hshows, hchosen.eq_of_isMixed⟩, fun negative n' h => h.signedValue_eq hrule,
    fun g rule' hrule' h => display_injective hrule hrule' h,
    hpoint.trans ((hchosen.isDecimal_iff hrule).trans (den_eq_iff hrule)), ?_⟩
  intro hnum hno
  have hnonneg : 0 ≤ f.num.toInt := Int64.le_iff_toInt_le.1 hnum
  have htext : f.display rule = String.ofList n.text := by
    rw [← String.toList_inj, hshows.text, decide_eq_false (Int.not_lt.2 hnonneg), minus,
      List.nil_append, String.toList_ofList]
  rw [htext]
  exact hchosen.evaluateFreely hnonneg fun h => hno (hpoint.2 h)

theorem display_exact_mixed :
    DisplayRule.hundredthsOrMixed ≠ .wholeNumber ∧
    ∃ f : Fraction, f.display .hundredthsOrMixed = "-2 1/3" ∧
      f.toRat = (Notation.mixed ['2'] ['1'] ['3']).signedValue true ∧ '.' ∉ "-2 1/3".toList := by
  let f : Fraction := ⟨-7, 3, by decide, by decide⟩
  have hrule : DisplayRule.hundredthsOrMixed ≠ .wholeNumber := by decide
  have hdisplay : f.display .hundredthsOrMixed = "-2 1/3" := by decide +kernel
  have hshows : Shows "-2 1/3".toList true (.mixed ['2'] ['1'] ['3']) := by
    refine ⟨?_, by decide⟩
    simp [Notation.WellFormed, IsRun]
    decide
  obtain ⟨-, hvalue, -, hpoint, -⟩ := display_exact f hrule
  rw [hdisplay] at hvalue hpoint
  refine ⟨hrule, f, hdisplay, (hvalue _ _ hshows).symm, ?_⟩
  intro h
  simpa [f] using hpoint.1 h

end TargetQuiz.Display

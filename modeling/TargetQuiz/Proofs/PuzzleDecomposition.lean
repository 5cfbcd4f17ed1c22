import TargetQuiz.Proofs.ExpressionAcceptance
import TargetQuiz.Proofs.ExpressionText
import TargetQuiz.Puzzle.Decomposition

/-! Decompositions are exact: the text is that of a phrase over the numbers, each typed once. The
two least numerators are left out, since theirs would need a number that no word denotes. -/
namespace TargetQuiz.Decomposition

open Expression

structure Spells (d : Decomposition) (e : Infix .sum) (value : Fraction) : Prop where
  legible : e.Legible
  text : e.text = d.text
  typed : e.tree.operands.flatMap Operand.typed = d.numbers
  positive : ∀ n ∈ d.numbers, 0 < n.toInt
  eval : e.tree.eval = .ok value

/-- A positive integer that a word denotes. -/
structure Fits (z : Int) : Prop where
  pos : 0 < z
  le : z ≤ Int64.maxValue.toInt

theorem Fits.toInt_ofInt {z : Int} (h : Fits z) : (Int64.ofInt z).toInt = z := by
  have hpos := h.pos
  have hle := h.le
  rw [Int64.toInt_maxValue] at hle
  exact Int64.toInt_ofInt_of_le (by omega) (by omega)

def number (z : Int) : Infix .factor := .operand (.integer (Int64.ofInt z))

theorem Fits.legible {z : Int} (h : Fits z) : (number z).Legible :=
  minValue_lt_of_nonneg (by rw [h.toInt_ofInt]; exact Int.le_of_lt h.pos)

theorem Fits.text {z : Int} (h : Fits z) : (number z).text = Numeral.ofInt z := by
  rw [number, Infix.text, Operand.text, h.toInt_ofInt]

theorem Fits.typed {z : Int} (h : Fits z) :
    (Operand.integer (Int64.ofInt z)).typed = [Int64.ofInt z] := by
  refine typed_integer ?_
  rw [h.toInt_ofInt]
  exact Int.le_of_lt h.pos

theorem Fits.eval {z : Int} (h : Fits z) :
    ∃ value, (number z).tree.eval = .ok value ∧ value.toRat = z := by
  refine ⟨Fraction.whole (Int64.ofInt z), rfl, ?_⟩
  rw [Fraction.toRat_whole, h.toInt_ofInt]

/-- Two numbers with an operator other than a division between them. -/
theorem spells_pair {op : Operator} (hop : op ≠ .div) {a b : Int} {value : Fraction} (ha : Fits a)
    (hb : Fits b) (h : op.exact a b = some value.toRat) :
    Spells (ofInts [a, b] (Numeral.ofInt a ++ [op.symbol] ++ Numeral.ofInt b))
      (.joined op (number a) (number b)) value where
  legible := Infix.joined_legible ha.legible hb.legible fun hdiv => absurd hdiv hop
  text := by simp [Infix.joined_text, ha.text, hb.text, ofInts]
  typed := by
    rw [Infix.joined_tree]
    simp [number, Infix.tree, Tree.operands, ha.typed, hb.typed, ofInts]
  positive := by
    simp [ofInts, ha.toInt_ofInt, hb.toInt_ofInt, ha.pos, hb.pos]
  eval := by
    obtain ⟨x, hx, hxa⟩ := ha.eval
    obtain ⟨y, hy, hyb⟩ := hb.eval
    rw [Infix.joined_tree]
    exact Tree.eval_node hx hy (by rwa [hxa, hyb])

theorem spells_number {z : Int} (h : Fits z) :
    Spells (ofInts [z] (Numeral.ofInt z)) (.single (number z))
      (Fraction.whole (Int64.ofInt z)) where
  legible := h.legible
  text := h.text
  typed := by
    change (Operand.integer (Int64.ofInt z)).typed ++ [] = _
    rw [h.typed]
    rfl
  positive := by simp [ofInts, h.toInt_ofInt, h.pos]
  eval := rfl

def quotient (num den : Int64) : Infix .factor := .operand (.ratio num den)

theorem text_quotient (num den : Int64) : (quotient num den).text =
    Numeral.ofInt num.toInt ++ '/' :: Numeral.ofInt den.toInt := rfl

theorem spells_ofParts {num den : Int64} {value : Fraction} (hmin : Int64.minValue < num)
    (hnum : num.toInt ≠ 0) (hden : 0 < den.toInt) (h : value.toRat = num.toInt / den.toInt) :
    Spells (ofParts num.toInt den.toInt) (.single (quotient num den)) value where
  legible := ⟨hmin, Int.le_of_lt hden⟩
  text := by
    change (quotient num den).text = _
    rw [text_quotient, Numeral.ofInt, ofParts]
    split <;> simp [ofInts]
  typed := by
    change (Operand.ratio num den).typed ++ [] = _
    rw [typed_ratio (Int.le_of_lt hden), List.append_nil, ofParts, ofInts]
    simp [magnitude]
  positive := by
    have hmagnitude : (Int64.ofInt num.toInt.natAbs).toInt = num.toInt.natAbs :=
      toInt_magnitude hmin
    simp only [ofParts, ofInts, List.map_cons, List.map_nil, Int64.ofInt_toInt,
      List.forall_mem_cons, hmagnitude]
    exact ⟨by omega, hden, by simp⟩
  eval := Tree.eval_ratio hden h

theorem ofParts_of_pos {n : Int} (h : 0 < n) (d : Int) :
    ofParts n d = ofInts [n, d] (Numeral.ofInt n ++ ['/'] ++ Numeral.ofInt d) := by
  have hn : ¬n < 0 := by omega
  have htext : Numeral.ofInt n = Numeral.ofNat n.natAbs := if_neg hn
  rw [ofParts, if_neg hn, htext, Int.natAbs_of_nonneg (Int.le_of_lt h)]

theorem Spells.add_rest {zs : List Int} {text : List Char} {e : Infix .sum}
    {v rest value : Fraction} (h : Spells (ofInts zs text) e v) (hrest : 0 < rest.num.toInt)
    (hvalue : value.toRat = v.toRat + rest.toRat) :
    Spells (ofInts (zs ++ [rest.num.toInt, rest.den.toInt]) (text ++ ['+'] ++
        (Numeral.ofInt rest.num.toInt ++ ['/'] ++ Numeral.ofInt rest.den.toInt)))
      (.binary .add e (.factor (quotient rest.num rest.den))) value where
  legible := by
    have hquotient : (quotient rest.num rest.den).Legible :=
      ⟨minValue_lt_of_nonneg (Int.le_of_lt hrest), Int.le_of_lt rest.den_pos⟩
    exact ⟨h.legible, hquotient, nofun⟩
  text := by
    change e.text ++ '+' :: (quotient rest.num rest.den).text = _
    rw [h.text, text_quotient]
    simp [ofInts]
  typed := by
    change (e.tree.operands ++ [Operand.ratio rest.num rest.den]).flatMap _ = _
    have hnum : magnitude rest.num = rest.num := magnitude_of_nonneg (Int.le_of_lt hrest)
    rw [List.flatMap_append, h.typed, List.flatMap_singleton,
      typed_ratio (Int.le_of_lt rest.den_pos), hnum]
    simp [ofInts]
  positive := by
    have hparts : ∀ n ∈ [rest.num, rest.den], 0 < n.toInt := by
      simpa using ⟨hrest, rest.den_pos⟩
    simpa [ofInts, List.forall_mem_append] using List.forall_mem_append.2 ⟨h.positive, hparts⟩
  eval := by
    have hquotient := Tree.eval_ratio rest.den_pos rest.toRat_eq_div
    refine Tree.eval_node h.eval hquotient ?_
    rw [Operator.exact, hvalue]

theorem splitWhole_spec {w : Int} (h : 2 ≤ w) :
    0 < (splitWhole w).1 ∧ 0 < (splitWhole w).2 ∧ (splitWhole w).1 + (splitWhole w).2 = w := by
  simp only [splitWhole]
  omega

theorem exact_splitWhole {f : Fraction} (hf : f.isWhole = true) (h : 2 ≤ f.num.toInt) :
    Operator.exact .add ((splitWhole f.num.toInt).1 : ℚ) (splitWhole f.num.toInt).2 =
      some f.toRat := by
  rw [Operator.exact, Fraction.toRat_of_isWhole hf, ← Int.cast_add, (splitWhole_spec h).2.2]

/-- Below two, a whole is what is left of one. -/
theorem exact_one_sub {f : Fraction} (hf : f.isWhole = true) :
    Operator.exact .sub ((1 : Int) : ℚ) ((1 - f.num.toInt : Int) : ℚ) = some f.toRat := by
  rw [Operator.exact, Fraction.toRat_of_isWhole hf]
  push_cast
  rw [sub_sub_cancel]

theorem exists_spells_ofWhole {f : Fraction} (hf : f.isWhole = true)
    (hnum : Int64.minValue.toInt + 2 ≤ f.num.toInt) : ∃ e, Spells (ofWhole f.num.toInt) e f := by
  have hvalue := Fraction.toRat_of_isWhole hf
  have hlt := f.num.toInt_lt
  rw [Int64.toInt_minValue] at hnum
  have hmax := Int64.toInt_maxValue
  unfold ofWhole
  split
  · rename_i hbig
    obtain ⟨ha, hb, hsum⟩ := splitWhole_spec hbig
    have hexact := exact_splitWhole hf hbig
    exact ⟨_, spells_pair (by decide) ⟨ha, by omega⟩ ⟨hb, by omega⟩ hexact⟩
  · split
    · rename_i hone
      have htwo : (2 : Int64).toInt = 2 := by decide
      have hshape : ofInts [2, 2] ['2', '/', '2'] =
          ofParts (2 : Int64).toInt (2 : Int64).toInt := by decide
      have hquotient : f.toRat = ((2 : Int64).toInt : ℚ) / ((2 : Int64).toInt : ℚ) := by
        rw [hvalue, hone, htwo]
        simp
      rw [hshape]
      exact ⟨_, spells_ofParts (by decide) (by decide) (by decide) hquotient⟩
    · have hexact := exact_one_sub hf
      exact ⟨_, spells_pair (by decide) ⟨by omega, by omega⟩ ⟨by omega, by omega⟩ hexact⟩

theorem num_fractionalPart_pos {f : Fraction} (hf : f.isWhole = false) :
    0 < f.fractionalPart.num.toInt := by
  refine lt_of_le_of_ne f.fractionalPart_num_nonneg fun hzero => ?_
  rw [Fraction.toInt_fractionalPart_num] at hzero
  simp [Fraction.isWhole, Fraction.den_of_emod_eq_zero hzero.symm] at hf

theorem exists_spells_ofMixed {f : Fraction} (hf : f.isWhole = false)
    (hfloor : 0 ≤ f.floor.toInt) :
    ∃ e, Spells
      (ofMixed f.floor.toInt f.fractionalPart.num.toInt f.fractionalPart.den.toInt) e f := by
  have hrest := num_fractionalPart_pos hf
  have hden := f.fractionalPart.den_pos
  have hvalue := f.toRat_eq_floor_add
  have hlt := f.floor.toInt_lt
  have hmax := Int64.toInt_maxValue
  unfold ofMixed
  split
  · rename_i hzero
    rw [hzero, Int.cast_zero, zero_add] at hvalue
    have h := spells_ofParts (minValue_lt_of_nonneg (Int.le_of_lt hrest)) (Int.ne_of_gt hrest) hden
      (hvalue.trans f.fractionalPart.toRat_eq_div)
    rw [ofParts_of_pos hrest] at h
    exact ⟨_, h⟩
  · split
    · rename_i hone
      have hsum : f.toRat = (Fraction.whole (Int64.ofInt 1)).toRat + f.fractionalPart.toRat := by
        rw [hvalue, hone, Fraction.toRat_whole]
        rfl
      exact ⟨_, (spells_number ⟨Int.one_pos, by decide⟩).add_rest hrest hsum⟩
    · obtain ⟨ha, hb, hsplit⟩ := splitWhole_spec (w := f.floor.toInt) (by omega)
      have hexact : Operator.exact .add ((splitWhole f.floor.toInt).1 : ℚ)
          (splitWhole f.floor.toInt).2 = some (Fraction.whole f.floor).toRat := by
        rw [Operator.exact, Fraction.toRat_whole, ← Int.cast_add, hsplit]
      have hsum : f.toRat = (Fraction.whole f.floor).toRat + f.fractionalPart.toRat := by
        rwa [Fraction.toRat_whole]
      have hpair := spells_pair (by decide) ⟨ha, by omega⟩ ⟨hb, by omega⟩ hexact
      exact ⟨_, hpair.add_rest hrest hsum⟩

/-- Every target has an exact decomposition unless its numerator is one of the two least. -/
theorem exists_spells {f : Fraction} (hnum : Int64.minValue.toInt + 2 ≤ f.num.toInt)
    (cap : Int64) : ∃ e, Spells (f.decompose cap) e f := by
  unfold Fraction.decompose
  split
  · exact exists_spells_ofWhole ‹_› hnum
  · rename_i hwhole
    rw [Bool.not_eq_true] at hwhole
    dsimp only
    split
    · have hmin : Int64.minValue < f.num := Int64.lt_iff_toInt_lt.2 (by omega)
      have hne : f.num.toInt ≠ 0 := by
        intro hzero
        have hpos := num_fractionalPart_pos hwhole
        rw [Fraction.toInt_fractionalPart_num, hzero, Int.zero_emod] at hpos
        exact absurd hpos (Int.lt_irrefl 0)
      exact ⟨_, spells_ofParts hmin hne f.den_pos f.toRat_eq_div⟩
    · rename_i hfloor
      have hnonneg : 0 ≤ f.floor := Int64.not_lt.1 fun h => hfloor (.inl h)
      exact exists_spells_ofMixed hwhole (Int64.le_iff_toInt_le.1 hnonneg)

theorem evaluate_decompose {f : Fraction} (hnum : Int64.minValue.toInt + 2 ≤ f.num.toInt)
    (cap : Int64) :
    evaluate (String.ofList (f.decompose cap).text) (f.decompose cap).numbers = .ok f := by
  obtain ⟨e, h⟩ := exists_spells hnum cap
  rw [← h.text]
  refine e.evaluate_text h.legible ?_ h.eval
  rw [h.typed]

theorem Spells.tokenize {d : Decomposition} {e : Infix .sum} {value : Fraction}
    (h : Spells d e value) :
    ∃ tokens, tokenize (normalize (String.ofList d.text)) = .ok tokens ∧
      typedNumbers tokens = d.numbers := by
  refine ⟨e.tokens, ?_, ?_⟩
  · rw [← h.text]
    exact e.tokenize_text h.legible
  · rw [typedNumbers_eq, operandsOf_tokens, h.typed]

/-- Whatever the cap, there are two to four numbers, all positive, and the text types each of them
once and has the target as its value. -/
theorem decompose_exact {f : Fraction} (hnum : Int64.minValue.toInt + 2 ≤ f.num.toInt)
    (cap : Int64) :
    2 ≤ (f.decompose cap).numbers.length ∧ (f.decompose cap).numbers.length ≤ 4 ∧
      (∀ n ∈ (f.decompose cap).numbers, 0 < n) ∧
      evaluate (String.ofList (f.decompose cap).text) (f.decompose cap).numbers = .ok f ∧
      ∃ tokens, tokenize (normalize (String.ofList (f.decompose cap).text)) = .ok tokens ∧
        (typedNumbers tokens).Perm (f.decompose cap).numbers := by
  obtain ⟨e, h⟩ := exists_spells hnum cap
  obtain ⟨hlo, hhi⟩ := f.length_decompose cap
  obtain ⟨tokens, htokens, htyped⟩ := h.tokenize
  have hpositive : ∀ n ∈ (f.decompose cap).numbers, 0 < n :=
    fun n hn => Int64.lt_iff_toInt_lt.2 (h.positive n hn)
  exact ⟨hlo, hhi, hpositive, evaluate_decompose hnum cap, tokens, htokens, .of_eq htyped⟩

theorem decompose_exact_least :
    Int64.minValue.toInt + 2 ≤ (Fraction.whole (-9223372036854775806)).num.toInt ∧
      (Fraction.whole (-9223372036854775806)).decompose 10 =
        ⟨[1, 9223372036854775807], "1-9223372036854775807".toList⟩ ∧
      evaluate "1-9223372036854775807" [1, 9223372036854775807] =
        .ok (Fraction.whole (-9223372036854775806)) ∧
      ∃ tokens, tokenize (normalize "1-9223372036854775807") = .ok tokens ∧
        (typedNumbers tokens).Perm [1, 9223372036854775807] := by
  have hnum : Int64.minValue.toInt + 2 ≤
      (Fraction.whole (-9223372036854775806)).num.toInt := by decide
  have hparts : (Fraction.whole (-9223372036854775806)).decompose 10 =
      ⟨[1, 9223372036854775807], "1-9223372036854775807".toList⟩ := by decide +kernel
  obtain ⟨-, -, -, hvalue, htyped⟩ := decompose_exact hnum 10
  rw [hparts] at hvalue htyped
  simp only [String.ofList_toList] at hvalue htyped
  exact ⟨hnum, hparts, hvalue, htyped⟩

end TargetQuiz.Decomposition

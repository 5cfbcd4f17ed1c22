import TargetQuiz.Proofs.ExpressionReading

/-! The plain reading takes each slash for a division; the lexemes join some of them into literal
fractions, which are applied first. The values differ only where such a fraction is divided by. -/
namespace TargetQuiz.Expression

def Piece.lexeme : Piece → Lexeme
  | .run digits => .number digits
  | .mark c => .mark c

/-- Join each number, slash, number into a literal fraction, from the left. -/
def fuse : List Lexeme → List Lexeme
  | .number num :: .mark '/' :: .number den :: rest => .ratio num den :: fuse rest
  | l :: rest => l :: fuse rest
  | [] => []

def Calm (ls : List Lexeme) : Prop :=
  ∀ digits rest, ls ≠ .mark '/' :: .number digits :: rest

theorem fuse_number {rest : List Lexeme} (h : Calm rest) (digits : List Char) :
    fuse (.number digits :: rest) = .number digits :: fuse rest := by
  rw [fuse]
  intro num den after hnumber hrest
  exact h den after hrest

theorem fuse_mark (c : Char) (rest : List Lexeme) :
    fuse (.mark c :: rest) = .mark c :: fuse rest := by
  rw [fuse]
  simp

theorem lexemes_eq_fuse (ps : List Piece) : lexemes ps = fuse (ps.map Piece.lexeme) := by
  fun_induction lexemes ps with
  | case1 => rfl
  | case2 num den rest ih => rw [ih]; rfl
  | case3 digits rest hrest ih =>
    rw [ih, List.map_cons]
    refine (fuse_number ?_ digits).symm
    intro den after heq
    match rest with
    | .mark c :: .run ds :: ps =>
      simp only [List.map_cons, Piece.lexeme, List.cons.injEq, Lexeme.mark.injEq] at heq
      obtain ⟨rfl, -⟩ := heq
      exact hrest ds ps rfl
    | [] | [p] | .run _ :: _ :: _ | .mark _ :: .mark _ :: _ => simp [Piece.lexeme] at heq
  | case4 c rest ih =>
    rw [ih, List.map_cons]
    exact (fuse_mark c _).symm

theorem calm_mark {c : Char} (h : c ≠ '/') (rest : List Lexeme) : Calm (.mark c :: rest) := by
  intro digits after heq
  exact h (Lexeme.mark.inj (List.cons.inj heq).1)

/-- No literal fraction is divided by, unless its denominator is one. -/
def Undivided (ls : List Lexeme) : Prop :=
  ∀ num den, [.mark '/', .ratio num den] <:+: ls → Numeral.value den = 1

theorem Undivided.mono {ls ms : List Lexeme} (h : Undivided ms) (hpart : ls <:+: ms) :
    Undivided ls := fun num den hratio => h num den (hratio.trans hpart)

abbrev Valued : Rank → List Lexeme → Option ℚ → Prop := HasValue false asWritten

/-- A joined phrase has a value, and it is `x` when no literal fraction in it is divided by. -/
def Becomes (r : Rank) (fused : List Lexeme) (x : Option ℚ) : Prop :=
  ∃ y, Valued r fused y ∧ (Undivided fused → y = x)

/-- Joining turns the phrase into one that becomes `x`, before any rest that is admitted. -/
def Joins (admits : List Lexeme → Prop) (r : Rank) (ls : List Lexeme) (x : Option ℚ) : Prop :=
  ∃ fused, Becomes r fused x ∧ ∀ rest, admits rest → fuse (ls ++ rest) = fused ++ fuse rest

/-- The phrase is joined the same way whatever is behind it. -/
abbrev Closed : Rank → List Lexeme → Option ℚ → Prop := Joins fun _ => True

/-- The front of a product before its last factor, and the value of the product by that of the last
factor. -/
inductive Front : List Lexeme → (ℚ → Option ℚ) → Prop
  | start : Front [] some
  | after (op : Operator) {ls : List Lexeme} {x : Option ℚ} (hop : .ofOperator op = Rank.product)
      (h : Becomes .product ls x) :
      Front (ls ++ [.mark op.symbol]) fun b => x.bind fun a => op.exact a b

/-- The phrase ends with a number that may still be joined with what is behind it. -/
def Open (ls : List Lexeme) (x : Option ℚ) : Prop :=
  ∃ front value digits n, Front front value ∧ wordOfDigits digits = .ok n ∧ x = value n.toInt ∧
    ∀ rest, fuse (ls ++ rest) = front ++ fuse (.number digits :: rest)

theorem HasValue.becomes {r : Rank} {ls : List Lexeme} {x : Option ℚ} (h : Valued r ls x) :
    Becomes r ls x := ⟨x, h, fun _ => rfl⟩

theorem Becomes.binary (op : Operator) {ls rs : List Lexeme} {x y : Option ℚ}
    (hl : Becomes (.ofOperator op) ls x) (hr : Becomes (Rank.ofOperator op).tighter rs y) :
    Becomes (.ofOperator op) (ls ++ .mark op.symbol :: rs)
      (x.bind fun a => y.bind fun b => op.exact a b) := by
  obtain ⟨x', hx, hleft⟩ := hl
  obtain ⟨y', hy, hright⟩ := hr
  refine ⟨_, .binary op hx hy, fun hundivided => ?_⟩
  rw [hleft (hundivided.mono (List.prefix_append _ _).isInfix),
    hright (hundivided.mono ⟨ls ++ [.mark op.symbol], [], by simp⟩)]
  rfl

/-- Two phrases with an operator between them are joined apart when the operator is no slash that
could be joined with both sides. -/
theorem Joins.binary {admits : List Lexeme → Prop} (op : Operator) {ls rs : List Lexeme}
    {x y : Option ℚ} (hl : Joins Calm (.ofOperator op) ls x)
    (hr : Joins admits (Rank.ofOperator op).tighter rs y)
    (hcalm : ∀ rest, admits rest → Calm (.mark op.symbol :: (rs ++ rest))) :
    Joins admits (.ofOperator op) (ls ++ .mark op.symbol :: rs)
      (x.bind fun a => y.bind fun b => op.exact a b) := by
  obtain ⟨left, hleft, hfusel⟩ := hl
  obtain ⟨right, hright, hfuser⟩ := hr
  refine ⟨left ++ .mark op.symbol :: right, hleft.binary op hright, fun rest hrest => ?_⟩
  rw [List.append_assoc, List.cons_append, hfusel _ (hcalm rest hrest), fuse_mark,
    hfuser rest hrest, List.append_assoc, List.cons_append]

theorem Front.becomes {front ls : List Lexeme} {value : ℚ → Option ℚ} {z : Option ℚ}
    (h : Front front value) (hls : Valued .factor ls z) :
    Becomes .product (front ++ ls) (z.bind value) := by
  cases h with
  | start =>
    rw [Option.bind_fun_some]
    exact hls.factor.becomes
  | @after op front x hop h =>
    have hswap : (z.bind fun b => x.bind fun a => op.exact a b) =
        x.bind fun a => z.bind fun b => op.exact a b := by
      cases x <;> cases z <;> rfl
    rw [hswap, List.append_assoc, List.singleton_append]
    cases op with
    | add => cases hop
    | sub => cases hop
    | mul => exact Becomes.binary .mul h hls.becomes
    | div => exact Becomes.binary .div h hls.becomes

theorem Open.joins {ls : List Lexeme} {x : Option ℚ} (h : Open ls x) :
    Joins Calm .product ls x := by
  obtain ⟨front, value, digits, n, hfront, hdigits, rfl, hfuse⟩ := h
  refine ⟨front ++ [.number digits], hfront.becomes (.number hdigits), fun rest hcalm => ?_⟩
  rw [hfuse, fuse_number hcalm, List.append_assoc, List.singleton_append]

theorem Open.after (op : Operator) (hop : .ofOperator op = Rank.product) {ls fused : List Lexeme}
    {x : Option ℚ} (hbecomes : Becomes .product fused x) {digits : List Char} {n : Int64}
    (hdigits : wordOfDigits digits = .ok n)
    (hfuse : ∀ rest, fuse (ls ++ .mark op.symbol :: .number digits :: rest) =
      fused ++ fuse (.mark op.symbol :: .number digits :: rest)) :
    Open (ls ++ [.mark op.symbol, .number digits]) (x.bind fun a => op.exact a n.toInt) := by
  refine ⟨fused ++ [.mark op.symbol], _, digits, n, .after op hop hbecomes, hdigits, rfl, ?_⟩
  intro rest
  have h := hfuse rest
  rw [fuse_mark] at h
  simpa using h

theorem Front.bind_ratio {front : List Lexeme} {value : ℚ → Option ℚ} (h : Front front value)
    {num den : List Char} (hundivided : Undivided (front ++ [.ratio num den])) {n d : Int64}
    (hden : wordOfDigits den = .ok d) :
    (Operand.ratio n d).exact.bind value =
      (value n.toInt).bind fun a => Operator.div.exact a d.toInt := by
  have hzero : (d.toInt : ℚ) = 0 ↔ d.toInt = 0 := Int.cast_eq_zero
  cases h with
  | start => simp [Operand.exact, Operator.exact, hzero]
  | @after op ls x hop h =>
    cases op with
    | add => cases hop
    | sub => cases hop
    | mul =>
      cases x <;> by_cases hd : d.toInt = 0 <;>
        simp [Operand.exact, Operator.exact, hd, mul_div_assoc]
    | div =>
      have hone : d.toInt = 1 := by
        rw [wordOfDigits_eq_ok_iff.1 hden, hundivided num den ⟨ls, [], by simp [Operator.symbol]⟩]
        rfl
      cases x <;> by_cases hn : n.toInt = 0 <;> simp [Operand.exact, Operator.exact, hone, hn]

theorem Open.divided {ls : List Lexeme} {x : Option ℚ} (h : Open ls x) {digits : List Char}
    {d : Int64} (hdigits : wordOfDigits digits = .ok d) :
    Closed .product (ls ++ [.mark '/', .number digits])
      (x.bind fun a => Operator.div.exact a d.toInt) := by
  obtain ⟨front, value, num, n, hfront, hnum, rfl, hfuse⟩ := h
  obtain ⟨y, hvalued, heq⟩ := hfront.becomes (.literal (.ratio hnum hdigits))
  refine ⟨front ++ [.ratio num digits], ⟨y, hvalued, fun hundivided => ?_⟩, fun rest _ => ?_⟩
  · exact (heq hundivided).trans (hfront.bind_ratio hundivided hdigits)
  · have h := hfuse (.mark '/' :: .number digits :: rest)
    rw [fuse] at h
    simpa using h

structure Compound (ls : List Lexeme) (x : Option ℚ) : Prop where
  closed : Closed .factor ls x
  calm : ∀ c rest, Calm (.mark c :: (ls ++ rest))

/-- What joining makes of the phrases of each rank. -/
def Fused : Rank → List Lexeme → Option ℚ → Prop
  | .factor, ls, x => Compound ls x ∨
      ∃ digits n, wordOfDigits digits = .ok n ∧ ls = [.number digits] ∧ x = some n.toInt
  | .product, ls, x => Closed .product ls x ∨ Open ls x
  | .sum, ls, x => Joins Calm .sum ls x

theorem Fused.joins {ls : List Lexeme} {x : Option ℚ} (h : Fused .product ls x) :
    Joins Calm .product ls x := by
  rcases h with ⟨fused, hbecomes, hfuse⟩ | hopen
  · exact ⟨fused, hbecomes, fun rest _ => hfuse rest trivial⟩
  · exact hopen.joins

theorem Fused.group {ls : List Lexeme} {x : Option ℚ} (h : Fused .sum ls x) :
    Compound (.mark '(' :: (ls ++ [.mark ')'])) x where
  closed := by
    obtain ⟨fused, ⟨y, hvalued, heq⟩, hfuse⟩ := h
    refine ⟨.mark '(' :: (fused ++ [.mark ')']), ⟨y, hvalued.group, ?_⟩, fun rest _ => ?_⟩
    · intro hundivided
      exact heq (hundivided.mono ⟨[.mark '('], [.mark ')'], by simp⟩)
    · have hinner := hfuse _ (calm_mark (by decide : ')' ≠ '/') rest)
      rw [fuse_mark] at hinner
      simp [fuse_mark, hinner]
  calm c rest := by
    intro digits after heq
    simp at heq

theorem Fused.binary {op : Operator} {ls rs : List Lexeme} {x y : Option ℚ}
    (hl : Fused (.ofOperator op) ls x) (hr : Fused (Rank.ofOperator op).tighter rs y) :
    Fused (.ofOperator op) (ls ++ .mark op.symbol :: rs)
      (x.bind fun a => y.bind fun b => op.exact a b) := by
  cases op with
  | add => exact Joins.binary .add hl hr.joins fun _ _ => calm_mark (by decide) _
  | sub => exact Joins.binary .sub hl hr.joins fun _ _ => calm_mark (by decide) _
  | mul =>
    rcases hr with hr | ⟨digits, n, hdigits, rfl, rfl⟩
    · exact .inl (Joins.binary .mul hl.joins hr.closed fun rest _ => hr.calm _ rest)
    · obtain ⟨fused, hbecomes, hfuse⟩ := hl.joins
      refine .inr (.after .mul rfl hbecomes hdigits fun rest => hfuse _ ?_)
      exact calm_mark (by decide) _
  | div =>
    rcases hr with hr | ⟨digits, n, hdigits, rfl, rfl⟩
    · exact .inl (Joins.binary .div hl.joins hr.closed fun rest _ => hr.calm _ rest)
    -- a slash between two numbers is joined with both when the left one is still open
    · rcases hl with ⟨fused, hbecomes, hfuse⟩ | hopen
      · exact .inr (.after .div rfl hbecomes hdigits fun rest => hfuse _ trivial)
      · exact .inl (hopen.divided hdigits)

theorem fused_of_valued {r : Rank} {ls : List Lexeme} {x : Option ℚ} (h : Valued r ls x) :
    Fused r ls x := by
  induction h with
  | @literal l o h =>
    cases h with
    | number hdigits => exact .inr ⟨_, _, hdigits, rfl, rfl⟩
    | @ratio num den n d hnum hden =>
      have hvalued : Valued .factor [.ratio num den] (Operand.ratio n d).exact :=
        .literal (.ratio hnum hden)
      refine .inl ⟨⟨_, hvalued.becomes, fun rest _ => rfl⟩, ?_⟩
      intro c rest digits after heq
      simp at heq
  | negative hsigns => cases hsigns
  | group _ ih => exact .inl (Fused.group ih)
  | negated hsigns => cases hsigns
  | factor _ ih =>
    rcases ih with hcompound | ⟨digits, n, hdigits, rfl, rfl⟩
    · obtain ⟨fused, ⟨y, hvalued, heq⟩, hfuse⟩ := hcompound.closed
      exact .inl ⟨fused, ⟨y, hvalued.factor, heq⟩, hfuse⟩
    · exact .inr ⟨[], some, digits, n, .start, hdigits, rfl, fun rest => rfl⟩
  | product _ ih =>
    obtain ⟨fused, ⟨y, hvalued, heq⟩, hfuse⟩ := ih.joins
    exact ⟨fused, ⟨y, hvalued.product, heq⟩, hfuse⟩
  | binary op _ _ ihl ihr => exact ihl.binary ihr

theorem becomes_fuse {ls : List Lexeme} {x : Option ℚ} (h : Valued .sum ls x) :
    Becomes .sum (fuse ls) x := by
  obtain ⟨fused, hbecomes, hfuse⟩ := fused_of_valued h
  have hall := hfuse [] fun digits rest heq => by simp at heq
  rw [List.append_nil, fuse, List.append_nil] at hall
  rwa [hall]

theorem head_of_valued {r : Rank} {ls : List Lexeme} {x : Option ℚ} (h : Valued r ls x) :
    ∃ l rest, ls = l :: rest ∧ l ≠ .mark '-' := by
  induction h with
  | literal h => exact ⟨_, _, rfl, h.ne_mark _⟩
  | negative hsigns => cases hsigns
  | group => exact ⟨_, _, rfl, by simp⟩
  | negated hsigns => cases hsigns
  | factor _ ih => exact ih
  | product _ ih => exact ih
  | binary op _ _ ihl _ =>
    obtain ⟨l, rest, rfl, hl⟩ := ihl
    exact ⟨l, _, rfl, hl⟩

theorem asScanned_of_valued {r : Rank} {ls : List Lexeme} {x : Option ℚ} (h : Valued r ls x) :
    HasValue true asScanned r ls x := by
  induction h with
  | literal h => exact .literal h
  | negative hsigns => cases hsigns
  | group _ ih => exact ih.group
  | negated hsigns => cases hsigns
  | factor _ ih => exact ih.factor
  | product _ ih => exact ih.product
  | @binary op ls rs x y _ hr ihl ihr =>
    have hwritten : asScanned op rs = op := by
      obtain ⟨l, rest, rfl, hl⟩ := head_of_valued hr
      refine if_neg ?_
      rintro ⟨-, hfront⟩
      exact hl (List.cons_prefix_cons.1 hfront).1.symm
    have hall := HasValue.binary op ihl ihr
    rwa [hwritten] at hall

/-- The value of an answer whose plain reading is a phrase is that of the phrase with its literal
fractions as operands. It is that of the plain reading, in which every slash divides, unless some
division is by a literal fraction. A literal fraction with the denominator one does no harm there. -/
theorem literal_fractions {answer : String} {value : Fraction} {x : Option ℚ}
    (hvalue : evaluateFreely answer = .ok value)
    (hplain : HasValue false asWritten .sum
      ((pieces (normalChars answer.toList)).map Piece.lexeme) x) :
    HasValue false asWritten .sum (lexemes (pieces (normalChars answer.toList)))
        (some value.toRat) ∧
      (Undivided (lexemes (pieces (normalChars answer.toList))) → x = some value.toRat) := by
  obtain ⟨y, hfused, heq⟩ := becomes_fuse hplain
  rw [← lexemes_eq_fuse] at hfused heq
  obtain rfl := (asScanned_of_valued hfused).eq_of_evaluateFreely hvalue
  exact ⟨hfused, fun hundivided => (heq hundivided).symm⟩

theorem literal_fractions_chain :
    evaluateFreely "2*3/4-8/4/2" = .ok ⟨1, 2, by decide, by decide⟩ ∧ ∃ x,
      HasValue false asWritten .sum
        ((pieces (normalChars "2*3/4-8/4/2".toList)).map Piece.lexeme) x ∧
      x = some (Fraction.toRat ⟨1, 2, by decide, by decide⟩) := by
  have hvalue : evaluateFreely "2*3/4-8/4/2" = .ok ⟨1, 2, by decide, by decide⟩ := by
    decide +kernel
  have hpieces : (pieces (normalChars "2*3/4-8/4/2".toList)).map Piece.lexeme =
      [.number ['2'], .mark '*', .number ['3'], .mark '/', .number ['4'], .mark '-', .number ['8'],
        .mark '/', .number ['4'], .mark '/', .number ['2']] := by decide +kernel
  have hlexemes : lexemes (pieces (normalChars "2*3/4-8/4/2".toList)) =
      [.number ['2'], .mark '*', .ratio ['3'] ['4'], .mark '-', .ratio ['8'] ['4'], .mark '/',
        .number ['2']] := by decide +kernel
  have hnumber (c : Char) (n : Int64) (h : wordOfDigits [c] = .ok n) :
      Valued .factor [.number [c]] (some n.toInt) := .number h
  have htwo := hnumber '2' 2 (by decide)
  have hthree := hnumber '3' 3 (by decide)
  have hfour := hnumber '4' 4 (by decide)
  have height := hnumber '8' 8 (by decide)
  have hleft := HasValue.binary .div (.binary .mul htwo.factor hthree) hfour
  have hright := HasValue.binary .div (.binary .div height.factor hfour) htwo
  have hplain : ∃ x, HasValue false asWritten .sum
      ((pieces (normalChars "2*3/4-8/4/2".toList)).map Piece.lexeme) x := by
    rw [hpieces]
    exact ⟨_, .binary .sub hleft.product hright⟩
  obtain ⟨x, hplain⟩ := hplain
  refine ⟨hvalue, x, hplain, (literal_fractions hvalue hplain).2 ?_⟩
  rw [hlexemes]
  intro num den hratio
  -- the only slash is followed by a number
  simp [List.infix_cons_iff] at hratio

theorem quotient_of_literal_fractions :
    ¬∀ (answer : String) (value : Fraction) (x : ℚ), evaluateFreely answer = .ok value →
      HasValue false asWritten .sum
        ((pieces (normalChars answer.toList)).map Piece.lexeme) (some x) →
      x = value.toRat := by
  intro h
  have hvalue : evaluateFreely "1/2/3/4" = .ok ⟨2, 3, by decide, by decide⟩ := by decide +kernel
  have hpieces : (pieces (normalChars "1/2/3/4".toList)).map Piece.lexeme =
      [.number ['1'], .mark '/', .number ['2'], .mark '/', .number ['3'], .mark '/',
        .number ['4']] := by decide +kernel
  have hnumber (c : Char) (n : Int64) (h : wordOfDigits [c] = .ok n) :
      Valued .factor [.number [c]] (some n.toInt) := .number h
  have hone := hnumber '1' 1 (by decide)
  have htwo := hnumber '2' 2 (by decide)
  have hthree := hnumber '3' 3 (by decide)
  have hfour := hnumber '4' 4 (by decide)
  have hproduct := HasValue.binary .div
    (.binary .div (.binary .div hone.factor htwo) hthree) hfour
  have hplain : HasValue false asWritten .sum
      ((pieces (normalChars "1/2/3/4".toList)).map Piece.lexeme) (some (1 / 2 / 3 / 4)) := by
    rw [hpieces]
    exact hproduct.product
  have heq := h _ _ _ hvalue hplain
  have hnum : (2 : Int64).toInt = 2 := by decide
  have hden : (3 : Int64).toInt = 3 := by decide
  norm_num [Fraction.toRat_eq_div, hnum, hden] at heq

end TargetQuiz.Expression

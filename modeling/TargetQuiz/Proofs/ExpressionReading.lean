import Mathlib.Tactic.NormNum
import TargetQuiz.Proofs.ExpressionAcceptance
import TargetQuiz.Proofs.ExpressionInfix

/-! The standard reading of lexemes, where a minus sign before a group negates the group. The
scanner writes a product in its place, so only a division on the left of it is applied otherwise. -/
namespace TargetQuiz.Expression

def asWritten (op : Operator) (_right : List Lexeme) : Operator := op

def negatedFront : List Lexeme := [.mark '-', .mark '(']

/-- A division by a negated group divides by minus one only and then multiplies by the group. -/
def asScanned (op : Operator) (right : List Lexeme) : Operator :=
  if op = .div ∧ negatedFront <+: right then .mul else op

/-- The rational value of a phrase; it has none when a division by zero occurs anywhere in it. Minus
signs before literals and groups occur only with `signs`. -/
inductive HasValue (signs : Bool) (applied : Operator → List Lexeme → Operator) :
    Rank → List Lexeme → Option ℚ → Prop
  | literal {l : Lexeme} {o : Operand} (h : Denotes false l o) :
      HasValue signs applied .factor [l] o.exact
  | negative {l : Lexeme} {o : Operand} (hsigns : signs = true) (h : Denotes true l o) :
      HasValue signs applied .factor [.mark '-', l] o.exact
  | group {ls : List Lexeme} {x : Option ℚ} (h : HasValue signs applied .sum ls x) :
      HasValue signs applied .factor (.mark '(' :: (ls ++ [.mark ')'])) x
  | negated {ls : List Lexeme} {x : Option ℚ} (hsigns : signs = true)
      (h : HasValue signs applied .sum ls x) :
      HasValue signs applied .factor (.mark '-' :: .mark '(' :: (ls ++ [.mark ')'])) (x.map (-·))
  | factor {ls : List Lexeme} {x : Option ℚ} (h : HasValue signs applied .factor ls x) :
      HasValue signs applied .product ls x
  | product {ls : List Lexeme} {x : Option ℚ} (h : HasValue signs applied .product ls x) :
      HasValue signs applied .sum ls x
  | binary (op : Operator) {ls rs : List Lexeme} {x y : Option ℚ}
      (hl : HasValue signs applied (.ofOperator op) ls x)
      (hr : HasValue signs applied (Rank.ofOperator op).tighter rs y) :
      HasValue signs applied (.ofOperator op) (ls ++ .mark op.symbol :: rs)
        (x.bind fun a => y.bind fun b => (applied op rs).exact a b)

def Parses (r : Rank) (tokens : List Token) (t : Tree) : Prop :=
  ∃ e : Infix r, e.tokens = tokens ∧ e.tree = t

namespace Parses

variable {ts us : List Token} {t u : Tree}

theorem operand (o : Operand) : Parses .factor [.operand o] (.leaf o) := ⟨.operand o, rfl, rfl⟩

theorem group (h : Parses .sum ts t) : Parses .factor (.opening :: (ts ++ [.closing])) t := by
  obtain ⟨e, rfl, rfl⟩ := h
  exact ⟨.group e, rfl, rfl⟩

theorem factor (h : Parses .factor ts t) : Parses .product ts t := by
  obtain ⟨e, rfl, rfl⟩ := h
  exact ⟨.factor e, rfl, rfl⟩

theorem product (h : Parses .product ts t) : Parses .sum ts t := by
  obtain ⟨e, rfl, rfl⟩ := h
  exact ⟨.product e, rfl, rfl⟩

theorem binary (op : Operator) (hl : Parses (.ofOperator op) ts t)
    (hr : Parses (Rank.ofOperator op).tighter us u) :
    Parses (.ofOperator op) (ts ++ .operator op :: us) (.node op t u) := by
  obtain ⟨e, rfl, rfl⟩ := hl
  obtain ⟨f, rfl, rfl⟩ := hr
  exact ⟨.binary op e f, rfl, rfl⟩

theorem eval {value : Fraction} (h : Parses .sum ts t)
    (hvalue : (toPostorder ts >>= evalPostorder) = .ok value) : t.eval = .ok value := by
  obtain ⟨e, rfl, rfl⟩ := h
  rw [toPostorder_tokens] at hvalue
  exact (evalPostorder_postorder e.tree).symm.trans hvalue

end Parses

/-- The lexemes are scanned as the tokens where an operand has to come, whatever is behind them. -/
def Scans (ls : List Lexeme) (ts : List Token) : Prop :=
  ∀ ⦃rest : List Lexeme⦄ ⦃tokens : List Token⦄, Scanned false rest tokens →
    Scanned true (ls ++ rest) (ts ++ tokens)

/-- What the tokens of a phrase are to the grammar: a phrase of the same rank, or, for a negated
group, a factor with minus one and a multiplication before it. -/
inductive Understood : Rank → List Lexeme → List Token → Option ℚ → Prop
  | phrase {r : Rank} {ls : List Lexeme} {ts : List Token} {t : Tree} (ht : Parses r ts t)
      (hfront : r = .factor → ¬negatedFront <+: ls) : Understood r ls ts t.exact
  | negated {ls : List Lexeme} {ts : List Token} {t : Tree} (ht : Parses .factor ts t) :
      Understood .factor (negatedFront ++ ls) (.operand .minusOne :: .operator .mul :: ts)
        (t.exact.map (-·))

/-- Multiplying by minus one is dividing by it, so both operators lead to the same product. -/
theorem Tree.exact_minusOne {op : Operator} (hop : op = .mul ∨ op = .div) (t u : Tree) :
    (node .mul (node op t (.leaf .minusOne)) u).exact =
      t.exact.bind fun a => (u.exact.map (-·)).bind fun b => Operator.mul.exact a b := by
  rcases hop with rfl | rfl <;> cases ht : t.exact <;> cases hu : u.exact <;>
    simp [Tree.exact, Operand.exact, Operator.exact, ht, hu, div_neg]

namespace Understood

variable {ls rs : List Lexeme} {ts us : List Token} {x y : Option ℚ}

theorem product (h : Understood .factor ls ts x) : ∃ t, Parses .product ts t ∧ t.exact = x := by
  cases h with
  | phrase ht _ => exact ⟨_, ht.factor, rfl⟩
  | @negated ls ts t ht =>
    refine ⟨_, .binary .mul (.factor (.operand .minusOne)) ht, ?_⟩
    cases h : t.exact <;> simp [Tree.exact, Operand.exact, Operator.exact, h]

theorem parses {r : Rank} (h : Understood r ls ts x) (hr : r ≠ .factor) :
    ∃ t, Parses r ts t ∧ t.exact = x := by
  cases h with
  | phrase ht _ => exact ⟨_, ht, rfl⟩
  | negated _ => exact absurd rfl hr

/-- An operator before a phrase that is one to the grammar is applied as it is written. Before a
negated group it is applied to minus one, and its result is multiplied by the group. -/
theorem binary {op : Operator} {t : Tree} (hl : Parses (.ofOperator op) ts t)
    (hr : Understood (Rank.ofOperator op).tighter rs us y) :
    ∃ u, Parses (.ofOperator op) (ts ++ .operator op :: us) u ∧
      u.exact = t.exact.bind fun a => y.bind fun b => (asScanned op rs).exact a b := by
  generalize hrank : (Rank.ofOperator op).tighter = r at hr
  cases hr with
  | phrase ht hfront =>
    subst hrank
    have hwritten : asScanned op rs = op := by
      refine if_neg ?_
      rintro ⟨rfl, hnegated⟩
      exact hfront rfl hnegated
    exact ⟨_, .binary op hl ht, by rw [hwritten]; rfl⟩
  | @negated rs us u ht =>
    -- to the grammar minus one and the group are two factors of the product on the left
    have hminus := Parses.operand .minusOne
    cases op with
    | add => cases hrank
    | sub => cases hrank
    | mul =>
      have hparses := (hl.binary .mul hminus).binary .mul ht
      have hmul : asScanned .mul (negatedFront ++ rs) = .mul := if_neg (by simp)
      rw [List.append_assoc] at hparses
      rw [hmul]
      exact ⟨_, hparses, Tree.exact_minusOne (.inl rfl) t u⟩
    | div =>
      have hparses := (hl.binary .div hminus).binary .mul ht
      have hmul : asScanned .div (negatedFront ++ rs) = .mul := if_pos (by simp)
      rw [List.append_assoc] at hparses
      rw [hmul]
      exact ⟨_, hparses, Tree.exact_minusOne (.inr rfl) t u⟩

end Understood

theorem Denotes.ne_mark {negative : Bool} {l : Lexeme} {o : Operand} (h : Denotes negative l o)
    (c : Char) : l ≠ .mark c := by
  cases h <;> simp

theorem Rank.ofOperator_ne_factor (op : Operator) : ofOperator op ≠ .factor := by
  cases op <;> simp [ofOperator]

namespace HasValue

variable {signs : Bool} {applied : Operator → List Lexeme → Operator} {r : Rank}
  {ls : List Lexeme} {x : Option ℚ}

theorem number {digits : List Char} {n : Int64} (h : wordOfDigits digits = .ok n) :
    HasValue signs applied .factor [.number digits] (some n.toInt) := .literal (.number h)

theorem understood (h : HasValue true asScanned r ls x) :
    ∃ ts, Scans ls ts ∧ Understood r ls ts x := by
  induction h with
  -- a single lexeme is too short to begin with a minus and a parenthesis
  | @literal l o h =>
    refine ⟨[.operand o], fun _ _ hrest => .literal true h hrest, .phrase (.operand o) ?_⟩
    intro _ hfront
    exact absurd hfront.length_le (by simp [negatedFront])
  | @negative l o _ h =>
    refine ⟨[.operand o], fun _ _ hrest => .negative h hrest, .phrase (.operand o) ?_⟩
    intro _ hfront
    have hopening := hfront.eq_of_length rfl
    exact h.ne_mark '(' (by simpa [negatedFront] using hopening.symm)
  | group _ ih =>
    obtain ⟨ts, hscans, hts⟩ := ih
    obtain ⟨t, ht, rfl⟩ := hts.parses (by simp)
    refine ⟨.opening :: (ts ++ [.closing]), ?_, .phrase ht.group ?_⟩
    · intro rest tokens hrest
      simpa using Scanned.opening true (hscans (.closing false hrest))
    · intro _ hfront
      simp [negatedFront] at hfront
  | negated _ _ ih =>
    obtain ⟨ts, hscans, hts⟩ := ih
    obtain ⟨t, ht, rfl⟩ := hts.parses (by simp)
    refine ⟨.operand .minusOne :: .operator .mul :: (.opening :: (ts ++ [.closing])), ?_,
      .negated ht.group⟩
    intro rest tokens hrest
    simpa using Scanned.negatedGroup (hscans (.closing false hrest))
  | factor _ ih =>
    obtain ⟨ts, hscans, hts⟩ := ih
    obtain ⟨t, ht, rfl⟩ := hts.product
    exact ⟨ts, hscans, .phrase ht (by simp)⟩
  | product _ ih =>
    obtain ⟨ts, hscans, hts⟩ := ih
    obtain ⟨t, ht, rfl⟩ := hts.parses (by simp)
    exact ⟨ts, hscans, .phrase ht.product (by simp)⟩
  | binary op _ _ ihl ihr =>
    obtain ⟨ts, hleft, hts⟩ := ihl
    obtain ⟨us, hright, hus⟩ := ihr
    have hrank := Rank.ofOperator_ne_factor op
    obtain ⟨t, ht, rfl⟩ := hts.parses hrank
    obtain ⟨u, hu, hx⟩ := hus.binary ht
    refine ⟨ts ++ .operator op :: us, ?_, ?_⟩
    · intro rest tokens hrest
      simpa using hleft (.operator op (fun _ => rfl) (hright hrest))
    · rw [← hx]
      exact .phrase hu fun h => absurd h hrank

theorem eq_of_evaluateFreely {answer : String} {value : Fraction}
    (h : HasValue true asScanned .sum (lexemes (pieces (normalChars answer.toList))) x)
    (hvalue : evaluateFreely answer = .ok value) : x = some value.toRat := by
  obtain ⟨ts, hscans, hts⟩ := h.understood
  obtain ⟨t, ht, rfl⟩ := hts.parses (by simp)
  have hscanned := hscans (.nil false)
  rw [List.append_nil, List.append_nil] at hscanned
  obtain ⟨tokens, htokens, hvalue⟩ := bind_eq_ok_iff.1 hvalue
  obtain rfl := Except.ok.inj ((scan_of_scanned hscanned 0).symm.trans htokens)
  exact Tree.exact_of_eval (ht.eval hvalue)

theorem exists_asScanned (h : HasValue signs asWritten r ls x) :
    ∃ y, HasValue signs asScanned r ls y := by
  induction h with
  | literal h => exact ⟨_, .literal h⟩
  | negative hsigns h => exact ⟨_, .negative hsigns h⟩
  | group _ ih => exact ⟨_, ih.choose_spec.group⟩
  | negated hsigns _ ih => exact ⟨_, .negated hsigns ih.choose_spec⟩
  | factor _ ih => exact ⟨_, ih.choose_spec.factor⟩
  | product _ ih => exact ⟨_, ih.choose_spec.product⟩
  | binary op _ _ ihl ihr => exact ⟨_, .binary op ihl.choose_spec ihr.choose_spec⟩

/-- Without a division by a negated group the phrase has the value of its standard reading. -/
theorem to_asScanned (h : HasValue signs asWritten r ls x)
    (hdiv : ¬.mark '/' :: negatedFront <:+: ls) : HasValue signs asScanned r ls x := by
  induction h with
  | literal h => exact .literal h
  | negative hsigns h => exact .negative hsigns h
  | group _ ih =>
    exact (ih fun hinner => hdiv (hinner.trans ⟨[.mark '('], [.mark ')'], by simp⟩)).group
  | negated hsigns _ ih =>
    exact .negated hsigns
      (ih fun hinner => hdiv (hinner.trans ⟨[.mark '-', .mark '('], [.mark ')'], by simp⟩))
  | factor _ ih => exact (ih hdiv).factor
  | product _ ih => exact (ih hdiv).product
  | @binary op ls rs x y _ _ ihl ihr =>
    have hleft := ihl fun hinner => hdiv (hinner.trans (List.prefix_append _ _).isInfix)
    have hright := ihr fun hinner =>
      hdiv (hinner.trans ⟨ls ++ [.mark op.symbol], [], by simp⟩)
    have hwritten : asScanned op rs = op := by
      refine if_neg ?_
      rintro ⟨rfl, after, rfl⟩
      exact hdiv ⟨ls, after, by simp [Operator.symbol]⟩
    have hall := HasValue.binary op hleft hright
    rwa [hwritten] at hall

end HasValue

/-- The value of an answer whose lexemes are a phrase is that of the phrase when each division by a
negated group is read as a multiplication by it. When there is none, it is that of the standard
reading, in which the minus sign before a group negates just the group. -/
theorem negated_groups {answer : String} {value : Fraction} {x : Option ℚ}
    (hvalue : evaluateFreely answer = .ok value)
    (hstandard : HasValue true asWritten .sum (lexemes (pieces (normalChars answer.toList))) x) :
    HasValue true asScanned .sum (lexemes (pieces (normalChars answer.toList)))
        (some value.toRat) ∧
      (¬.mark '/' :: negatedFront <:+: lexemes (pieces (normalChars answer.toList)) →
        x = some value.toRat) := by
  constructor
  · obtain ⟨y, hy⟩ := hstandard.exists_asScanned
    obtain rfl := hy.eq_of_evaluateFreely hvalue
    exact hy
  · intro hdiv
    exact (hstandard.to_asScanned hdiv).eq_of_evaluateFreely hvalue

theorem negated_groups_product :
    evaluateFreely "2*-(3-5)/4" = .ok (Fraction.whole 1) ∧ ∃ x,
      HasValue true asWritten .sum (lexemes (pieces (normalChars "2*-(3-5)/4".toList))) x ∧
        x = some (Fraction.whole 1).toRat := by
  have hvalue : evaluateFreely "2*-(3-5)/4" = .ok (Fraction.whole 1) := by decide +kernel
  have hlexemes : lexemes (pieces (normalChars "2*-(3-5)/4".toList)) =
      [.number ['2'], .mark '*', .mark '-', .mark '(', .number ['3'], .mark '-', .number ['5'],
        .mark ')', .mark '/', .number ['4']] := by decide +kernel
  have hnumber {c : Char} {n : Int64} (h : wordOfDigits [c] = .ok n) :
      HasValue true asWritten .factor [.number [c]] (some n.toInt) := .number h
  have htwo := hnumber (c := '2') (n := 2) (by decide)
  have hthree := hnumber (c := '3') (n := 3) (by decide)
  have hfour := hnumber (c := '4') (n := 4) (by decide)
  have hfive := hnumber (c := '5') (n := 5) (by decide)
  have hgroup := HasValue.negated rfl (.binary .sub hthree.factor.product hfive.factor)
  have hproduct := HasValue.binary .div (.binary .mul htwo.factor hgroup) hfour
  have hstandard : ∃ x,
      HasValue true asWritten .sum (lexemes (pieces (normalChars "2*-(3-5)/4".toList))) x := by
    rw [hlexemes]
    exact ⟨_, hproduct.product⟩
  obtain ⟨x, hstandard⟩ := hstandard
  refine ⟨hvalue, x, hstandard, (negated_groups hvalue hstandard).2 ?_⟩
  rw [hlexemes]
  decide

theorem quotient_of_negated_group :
    ¬∀ (answer : String) (value : Fraction) (x : ℚ), evaluateFreely answer = .ok value →
      HasValue true asWritten .sum (lexemes (pieces (normalChars answer.toList))) (some x) →
        x = value.toRat := by
  intro h
  have hvalue : evaluateFreely "6/-(3)" = .ok (Fraction.whole (-18)) := by decide +kernel
  have hlexemes : lexemes (pieces (normalChars "6/-(3)".toList)) =
      [.number ['6'], .mark '/', .mark '-', .mark '(', .number ['3'], .mark ')'] := by
    decide +kernel
  have hsix : HasValue true asWritten .factor [.number ['6']] (some ((6 : Int64).toInt : ℚ)) :=
    .number (by decide)
  have hthree : HasValue true asWritten .factor [.number ['3']] (some ((3 : Int64).toInt : ℚ)) :=
    .number (by decide)
  have hproduct := HasValue.binary .div hsix.factor (.negated rfl hthree.factor.product)
  have hstandard : HasValue true asWritten .sum
      (lexemes (pieces (normalChars "6/-(3)".toList))) (some (6 / -3)) := by
    rw [hlexemes]
    exact hproduct.product
  have heq := h _ _ _ hvalue hstandard
  have hleast : (-18 : Int64).toInt = -18 := by decide
  rw [Fraction.toRat_whole, hleast] at heq
  norm_num at heq

end TargetQuiz.Expression

import TargetQuiz.Proofs.ExpressionPostorder

namespace TargetQuiz.Expression

inductive Denotes (negative : Bool) : Lexeme → Operand → Prop
  | number {digits : List Char} {n : Int64} (h : wordOfDigits digits = .ok n) :
      Denotes negative (.number digits) (.integer (signed negative n))
  | ratio {num den : List Char} {n d : Int64} (hn : wordOfDigits num = .ok n)
      (hd : wordOfDigits den = .ok d) :
      Denotes negative (.ratio num den) (.ratio (signed negative n) d)

/-- The tokens of lexemes; the flag says that an operand has to come next. -/
inductive Scanned : Bool → List Lexeme → List Token → Prop
  | nil (fresh : Bool) : Scanned fresh [] []
  | literal (fresh : Bool) {lexeme : Lexeme} {o : Operand} {rest : List Lexeme}
      {tokens : List Token} (h : Denotes false lexeme o) (hrest : Scanned false rest tokens) :
      Scanned fresh (lexeme :: rest) (.operand o :: tokens)
  | opening (fresh : Bool) {rest : List Lexeme} {tokens : List Token}
      (hrest : Scanned true rest tokens) :
      Scanned fresh (.mark '(' :: rest) (.opening :: tokens)
  | closing (fresh : Bool) {rest : List Lexeme} {tokens : List Token}
      (hrest : Scanned false rest tokens) :
      Scanned fresh (.mark ')' :: rest) (.closing :: tokens)
  | operator {fresh : Bool} (op : Operator) {rest : List Lexeme} {tokens : List Token}
      (h : op = .sub → fresh = false) (hrest : Scanned true rest tokens) :
      Scanned fresh (.mark op.symbol :: rest) (.operator op :: tokens)
  | negative {lexeme : Lexeme} {o : Operand} {rest : List Lexeme} {tokens : List Token}
      (h : Denotes true lexeme o) (hrest : Scanned false rest tokens) :
      Scanned true (.mark '-' :: lexeme :: rest) (.operand o :: tokens)
  | negatedGroup {rest : List Lexeme} {tokens : List Token} (hrest : Scanned true rest tokens) :
      Scanned true (.mark '-' :: .mark '(' :: rest)
        (.operand .minusOne :: .operator .mul :: .opening :: tokens)

theorem numberOperand_eq_ok_iff {negative : Bool} {digits : List Char} {o : Operand} :
    numberOperand negative digits = .ok o ↔ Denotes negative (.number digits) o := by
  constructor
  · intro h
    obtain ⟨n, hn, rfl⟩ := bind_pure_eq_ok_iff.1 h
    exact .number hn
  · rintro ⟨hn⟩
    exact bind_eq_ok_iff.2 ⟨_, hn, rfl⟩

theorem ratioOperand_eq_ok_iff {negative : Bool} {num den : List Char} {o : Operand} :
    ratioOperand negative num den = .ok o ↔ Denotes negative (.ratio num den) o := by
  constructor
  · intro h
    obtain ⟨n, hn, h⟩ := bind_eq_ok_iff.1 h
    obtain ⟨d, hd, rfl⟩ := bind_pure_eq_ok_iff.1 h
    exact .ratio hn hd
  · intro h
    cases h with
    | ratio hn hd => exact bind_eq_ok_iff.2 ⟨_, hn, bind_eq_ok_iff.2 ⟨_, hd, rfl⟩⟩

theorem scanned_of_scan {position : Nat} {fresh : Bool} {lexemes : List Lexeme}
    {tokens : List Token} (h : scan position fresh lexemes = .ok tokens) :
    Scanned fresh lexemes tokens := by
  -- each line of `scan` that does not fail is one rule of `Scanned`
  fun_induction scan position fresh lexemes generalizing tokens with
  | case1 position fresh =>
    cases h
    exact .nil fresh
  | case2 position fresh digits rest ih =>
    obtain ⟨o, ho, h⟩ := bind_eq_ok_iff.1 h
    obtain ⟨ts, hts, rfl⟩ := bind_pure_eq_ok_iff.1 h
    exact .literal fresh (numberOperand_eq_ok_iff.1 ho) (ih hts)
  | case3 position fresh num den rest ih =>
    obtain ⟨o, ho, h⟩ := bind_eq_ok_iff.1 h
    obtain ⟨ts, hts, rfl⟩ := bind_pure_eq_ok_iff.1 h
    exact .literal fresh (ratioOperand_eq_ok_iff.1 ho) (ih hts)
  | case4 position fresh rest ih =>
    obtain ⟨ts, hts, rfl⟩ := bind_pure_eq_ok_iff.1 h
    exact .opening fresh (ih hts)
  | case5 position fresh rest ih =>
    obtain ⟨ts, hts, rfl⟩ := bind_pure_eq_ok_iff.1 h
    exact .closing fresh (ih hts)
  | case6 position fresh c hopening hclosing hminus digits rest ih =>
    obtain ⟨rfl, rfl⟩ := hminus
    obtain ⟨o, ho, h⟩ := bind_eq_ok_iff.1 h
    obtain ⟨ts, hts, rfl⟩ := bind_pure_eq_ok_iff.1 h
    exact .negative (numberOperand_eq_ok_iff.1 ho) (ih hts)
  | case7 position fresh c hopening hclosing hminus num den rest ih =>
    obtain ⟨rfl, rfl⟩ := hminus
    obtain ⟨o, ho, h⟩ := bind_eq_ok_iff.1 h
    obtain ⟨ts, hts, rfl⟩ := bind_pure_eq_ok_iff.1 h
    exact .negative (ratioOperand_eq_ok_iff.1 ho) (ih hts)
  | case8 position fresh c hopening hclosing hminus rest ih =>
    obtain ⟨rfl, rfl⟩ := hminus
    obtain ⟨ts, hts, rfl⟩ := bind_pure_eq_ok_iff.1 h
    exact .negatedGroup (ih hts)
  | case9 => cases h
  | case10 position fresh c rest hopening hclosing hminus op hop ih =>
    obtain ⟨ts, hts, rfl⟩ := bind_pure_eq_ok_iff.1 h
    have hc := Operator.ofSymbol?_eq_some_iff.1 hop
    rw [← hc] at hminus ⊢
    refine .operator op (fun hsub => ?_) (ih hts)
    rw [hsub] at hminus
    simpa [Operator.symbol] using hminus
  | case11 => cases h

theorem scan_operator {position : Nat} {fresh : Bool} {op : Operator}
    (h : op = .sub → fresh = false) (rest : List Lexeme) :
    scan position fresh (.mark op.symbol :: rest) =
      (scan (position + 1) true rest >>= fun tokens => pure (.operator op :: tokens)) := by
  cases op with
  | sub =>
    rw [h rfl, scan.eq_def]
    rfl
  | add => rw [scan.eq_def]; rfl
  | mul => rw [scan.eq_def]; rfl
  | div => rw [scan.eq_def]; rfl

theorem scan_of_scanned {fresh : Bool} {lexemes : List Lexeme} {tokens : List Token}
    (h : Scanned fresh lexemes tokens) (position : Nat) :
    scan position fresh lexemes = .ok tokens := by
  induction h generalizing position with
  | nil => rfl
  | literal fresh h _ ih =>
    cases h with
    | number hn => exact bind_eq_ok_iff.2 ⟨_, numberOperand_eq_ok_iff.2 (.number hn),
        bind_eq_ok_iff.2 ⟨_, ih _, rfl⟩⟩
    | ratio hn hd => exact bind_eq_ok_iff.2 ⟨_, ratioOperand_eq_ok_iff.2 (.ratio hn hd),
        bind_eq_ok_iff.2 ⟨_, ih _, rfl⟩⟩
  | opening fresh _ ih => exact bind_eq_ok_iff.2 ⟨_, ih _, rfl⟩
  | closing fresh _ ih => exact bind_eq_ok_iff.2 ⟨_, ih _, rfl⟩
  | operator op h _ ih =>
    rw [scan_operator h]
    exact bind_eq_ok_iff.2 ⟨_, ih _, rfl⟩
  | negative h _ ih =>
    cases h with
    | number hn => exact bind_eq_ok_iff.2 ⟨_, numberOperand_eq_ok_iff.2 (.number hn),
        bind_eq_ok_iff.2 ⟨_, ih _, rfl⟩⟩
    | ratio hn hd => exact bind_eq_ok_iff.2 ⟨_, ratioOperand_eq_ok_iff.2 (.ratio hn hd),
        bind_eq_ok_iff.2 ⟨_, ih _, rfl⟩⟩
  | negatedGroup _ ih => exact bind_eq_ok_iff.2 ⟨_, ih _, rfl⟩

/-- The scanner succeeds exactly along the rules, and where the text stands does not matter. -/
theorem scan_eq_ok_iff {position : Nat} {fresh : Bool} {lexemes : List Lexeme}
    {tokens : List Token} :
    scan position fresh lexemes = .ok tokens ↔ Scanned fresh lexemes tokens :=
  ⟨scanned_of_scan, fun h => scan_of_scanned h position⟩

theorem wordOfDigits_eq_ok_iff {digits : List Char} {n : Int64} :
    wordOfDigits digits = .ok n ↔ n.toInt = Numeral.value digits := by
  rw [← Word.int64?_eq_some_iff, wordOfDigits]
  cases Word.int64? (Numeral.value digits) <;> simp

/-- A sign changes the integer that an unsigned word denotes, and never overflows. -/
theorem toInt_signed {n : Int64} (negative : Bool) (h : 0 ≤ n.toInt) :
    (signed negative n).toInt = if negative then -n.toInt else n.toInt := by
  cases negative with
  | false => rfl
  | true =>
    have hlt := n.toInt_lt
    rw [signed, if_pos rfl, Int64.toInt_neg, if_pos rfl]
    exact Int.bmod_eq_of_le (by omega) (by omega)

def Operand.parts : Operand → List Int64
  | .integer n => [n]
  | .ratio num den => [num, den]
  | .minusOne => []

theorem Operand.typed_eq (o : Operand) : o.typed = o.parts.map magnitude := by
  cases o <;> rfl

theorem toInt_magnitude {n : Int64} (h : Int64.minValue < n) :
    (magnitude n).toInt = n.toInt.natAbs := by
  have hmin : Int64.minValue.toInt < n.toInt := Int64.lt_iff_toInt_lt.1 h
  rw [Int64.toInt_minValue] at hmin
  have hlt := n.toInt_lt
  exact Int64.toInt_ofInt_of_le (by omega) (by omega)

theorem minValue_lt_of_nonneg {n : Int64} (h : 0 ≤ n.toInt) : Int64.minValue < n :=
  Int64.lt_iff_toInt_lt.2 (Int.lt_of_lt_of_le (by decide) h)

theorem magnitude_of_nonneg {n : Int64} (h : 0 ≤ n.toInt) : magnitude n = n := by
  rw [magnitude, Int.natAbs_of_nonneg h, Int64.ofInt_toInt]

theorem typed_integer {n : Int64} (h : 0 ≤ n.toInt) : (Operand.integer n).typed = [n] := by
  rw [Operand.typed, magnitude_of_nonneg h]

theorem typed_ratio {den : Int64} (hden : 0 ≤ den.toInt) (num : Int64) :
    (Operand.ratio num den).typed = [magnitude num, den] := by
  rw [Operand.typed, magnitude_of_nonneg hden]

theorem toInt_signed_of_digits {digits : List Char} {n : Int64} (negative : Bool)
    (h : wordOfDigits digits = .ok n) :
    (signed negative n).toInt =
      if negative then -(Numeral.value digits : Int) else Numeral.value digits := by
  have hvalue := wordOfDigits_eq_ok_iff.1 h
  rw [toInt_signed negative (by omega), hvalue]

theorem minValue_lt_signed {digits : List Char} {n : Int64} (negative : Bool)
    (h : wordOfDigits digits = .ok n) : Int64.minValue < signed negative n := by
  have hvalue := wordOfDigits_eq_ok_iff.1 h
  have hlt := n.toInt_lt
  rw [Int64.lt_iff_toInt_lt, toInt_signed_of_digits negative h, Int64.toInt_minValue]
  split <;> omega

/-- The least word is no part of a literal, because a literal is read without its sign. -/
theorem Denotes.minValue_lt {negative : Bool} {lexeme : Lexeme} {o : Operand}
    (h : Denotes negative lexeme o) : ∀ n ∈ o.parts, Int64.minValue < n := by
  cases h with
  | number hn => simpa [Operand.parts] using minValue_lt_signed negative hn
  | ratio hn hd =>
    simpa [Operand.parts] using ⟨minValue_lt_signed negative hn, minValue_lt_signed false hd⟩

theorem Scanned.minValue_lt {fresh : Bool} {lexemes : List Lexeme} {tokens : List Token}
    (h : Scanned fresh lexemes tokens) :
    ∀ o ∈ operandsOf tokens, ∀ n ∈ o.parts, Int64.minValue < n := by
  induction h with
  | nil => simp [operandsOf]
  | literal fresh h _ ih => exact List.forall_mem_cons.2 ⟨h.minValue_lt, ih⟩
  | opening fresh _ ih => exact ih
  | closing fresh _ ih => exact ih
  | operator op h _ ih => exact ih
  | negative h _ ih => exact List.forall_mem_cons.2 ⟨h.minValue_lt, ih⟩
  | negatedGroup _ ih => exact List.forall_mem_cons.2 ⟨by simp [Operand.parts], ih⟩

/-- Minus one stands before a multiplication by a group only. -/
def NegatesGroups : List Token → Prop
  | [] => True
  | .operand .minusOne :: rest =>
    (∃ after, rest = .operator .mul :: .opening :: after) ∧ NegatesGroups rest
  | _ :: rest => NegatesGroups rest

theorem Denotes.ne_minusOne {negative : Bool} {lexeme : Lexeme} {o : Operand}
    (h : Denotes negative lexeme o) : o ≠ .minusOne := by
  cases h <;> simp

theorem negatesGroups_cons {o : Operand} (h : o ≠ .minusOne) {tokens : List Token}
    (ht : NegatesGroups tokens) : NegatesGroups (.operand o :: tokens) := by
  cases o with
  | integer n => exact ht
  | ratio num den => exact ht
  | minusOne => exact absurd rfl h

theorem Scanned.negatesGroups {fresh : Bool} {lexemes : List Lexeme} {tokens : List Token}
    (h : Scanned fresh lexemes tokens) : NegatesGroups tokens := by
  induction h with
  | nil => trivial
  | literal fresh h _ ih => exact negatesGroups_cons h.ne_minusOne ih
  | opening fresh _ ih => exact ih
  | closing fresh _ ih => exact ih
  | operator op h _ ih => exact ih
  | negative h _ ih => exact negatesGroups_cons h.ne_minusOne ih
  | negatedGroup _ ih => exact ⟨⟨_, rfl⟩, ih⟩

end TargetQuiz.Expression

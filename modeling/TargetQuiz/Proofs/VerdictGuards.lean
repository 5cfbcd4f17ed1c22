import TargetQuiz.Proofs.ExpressionPositions
import TargetQuiz.Proofs.FractionDoubleWords
import TargetQuiz.Question.Basic

/-! The whole check once more with nothing taken for granted: slices, negations, magnitudes, double
words and divisions are guarded. There always is an outcome, and it is the verdict. -/
namespace TargetQuiz

/-- A computation that stops without an outcome where an operation is out of range. -/
abbrev Guarded (ε α : Type) := ExceptT ε Option α

namespace Guarded

variable {ε α β γ : Type}

def inRange (x : Except ε α) : Guarded ε α := ExceptT.mk (some x)

def ofOption (x : Option α) : Guarded ε α := ExceptT.mk (x.map .ok)

theorem ofOption_some (a : α) : (ofOption (some a) : Guarded ε α) = inRange (.ok a) := rfl

/-- Steps in range follow each other in range. -/
theorem bind_inRange {x : Except ε α} {f' : α → Guarded ε β} {f : α → Except ε β}
    (hf : ∀ a, x = .ok a → f' a = inRange (f a)) : (inRange x >>= f') = inRange (x >>= f) := by
  cases x with
  | error e => rfl
  | ok a => exact hf a rfl

theorem bind_inRange_map {x : Except ε α} {f' : α → Guarded ε γ} {f : α → Except ε β} {g : β → γ}
    (hf : ∀ a, x = .ok a → f' a = inRange ((f a).map g)) :
    (inRange x >>= f') = inRange ((x >>= f).map g) := by
  cases x with
  | error e => rfl
  | ok a => exact hf a rfl

theorem map_eq {x' : Guarded ε α} {x : Except ε α} (hx : x' = inRange x) (f : α → β) :
    (x' >>= fun a => pure (f a)) = inRange (x >>= fun a => pure (f a)) := by
  rw [hx]
  exact bind_inRange fun _ _ => rfl

end Guarded

open Guarded

/-! Words. -/

namespace Word

def negate? (n : Int64) : Option Int64 := if n = Int64.minValue then none else some (-n)

def magnitude? (n : Int64) : Option Int64 :=
  if n = Int64.minValue then none else some (Expression.magnitude n)

def divide? (n d : Int) : Option Int := if d = 0 then none else int128? (n.tdiv d)

end Word

namespace Fraction.Parts

/-- Divide both parts by their greatest common divisor, which must not be zero, and narrow them. -/
def reduce? (n d : Int) : Option (Except ArithmeticError Parts) := do
  let g ← Word.int128? (n.natAbs.gcd d.natAbs)
  return narrow (← Word.divide? n g) (← Word.divide? d g)

def ofQuotient? (n d : Int) : Option (Except ArithmeticError Parts) :=
  if d = 0 then return .error .divisionByZero
  else if d < 0 then do reduce? (← Word.int128? (-n)) (← Word.int128? (-d))
  else reduce? n d

def cross? (op : Operator) (a b : Parts) : Option (Int × Int) :=
  match op with
  | .add => do
    let x ← Word.int128? (a.num.toInt * b.den.toInt)
    let y ← Word.int128? (b.num.toInt * a.den.toInt)
    return (← Word.int128? (x + y), ← Word.int128? (a.den.toInt * b.den.toInt))
  | .sub => do
    let x ← Word.int128? (a.num.toInt * b.den.toInt)
    let y ← Word.int128? (b.num.toInt * a.den.toInt)
    return (← Word.int128? (x - y), ← Word.int128? (a.den.toInt * b.den.toInt))
  | .mul => do
    return (← Word.int128? (a.num.toInt * b.num.toInt), ← Word.int128? (a.den.toInt * b.den.toInt))
  | .div => do
    return (← Word.int128? (a.num.toInt * b.den.toInt), ← Word.int128? (a.den.toInt * b.num.toInt))

def combine? (op : Operator) (a b : Parts) : Option (Except ArithmeticError Parts) :=
  if op = .div ∧ b.num.toInt = 0 then return .error .divisionByZero
  else do
    let (n, d) ← cross? op a b
    ofQuotient? n d

theorem eq_of_int128? {z w : Int} (h : Word.int128? z = some w) : w = z := by
  unfold Word.int128? at h
  split at h
  · exact (Option.some.inj h).symm
  · cases h

/-- A denominator that is not zero has no zero divisor in common with the numerator. -/
theorem reduce?_eq {d : Int} (hd : d ≠ 0) (n : Int) : reduce? n d = reduce n d := by
  have hpos := Nat.gcd_pos_of_pos_right n.natAbs (Int.natAbs_pos.2 hd)
  rw [reduce?, reduce]
  refine Option.bind_congr fun g hg => ?_
  have hne : g ≠ 0 := by
    rw [eq_of_int128? hg]
    omega
  simp only [Word.divide?, if_neg hne]

theorem ofQuotient?_eq (n d : Int) : ofQuotient? n d = ofQuotient n d := by
  unfold ofQuotient? ofQuotient
  split
  · rfl
  split
  · refine Option.bind_congr fun n' _ => Option.bind_congr fun d' hd' => ?_
    rw [reduce?_eq (by rw [eq_of_int128? hd']; omega)]
  · exact reduce?_eq (by assumption) n

theorem combine?_eq (op : Operator) (a b : Parts) : combine? op a b = apply op a b := by
  cases op <;> simp [combine?, cross?, apply, ofQuotient?_eq, Option.bind_assoc]

end Fraction.Parts

namespace Expression

open Fraction (Parts parts)

/-! Normal form. -/

def normalChars? (cs : List Char) : Option (List Char) :=
  (expandFrom? (cs.map plainSign) 0).map (·.filter fun c => !Text.isBlank c)

theorem normalChars?_eq (cs : List Char) : normalChars? cs = some (normalChars cs) := by
  rw [normalChars?, expandFrom?_eq ⟨Nat.zero_le _, List.drop_zero⟩]
  rfl

/-! Tokens. -/

def signed? (negative : Bool) (n : Int64) : Option Int64 :=
  if negative then Word.negate? n else some n

def numberOperand? (negative : Bool) (digits : List Char) : Guarded EvalError Operand := do
  let n ← inRange (wordOfDigits digits)
  return .integer (← ofOption (signed? negative n))

def ratioOperand? (negative : Bool) (num den : List Char) : Guarded EvalError Operand := do
  let n ← inRange (wordOfDigits num)
  let n ← ofOption (signed? negative n)
  return .ratio n (← inRange (wordOfDigits den))

def scan? (position : Nat) (fresh : Bool) : List Lexeme → Guarded EvalError (List Token)
  | [] => inRange (.ok [])
  | .number digits :: rest => do
    let o ← numberOperand? false digits
    return .operand o :: (← scan? (position + digits.length) false rest)
  | .ratio num den :: rest => do
    let o ← ratioOperand? false num den
    return .operand o :: (← scan? (position + (num.length + 1 + den.length)) false rest)
  | .mark c :: rest =>
    if c = '(' then return .opening :: (← scan? (position + 1) true rest)
    else if c = ')' then return .closing :: (← scan? (position + 1) false rest)
    else if c = '-' ∧ fresh then
      match rest with
      | .number digits :: rest => do
        let o ← numberOperand? true digits
        return .operand o :: (← scan? (position + 1 + digits.length) false rest)
      | .ratio num den :: rest => do
        let o ← ratioOperand? true num den
        return .operand o :: (← scan? (position + 1 + (num.length + 1 + den.length)) false rest)
      | .mark '(' :: rest =>
        return .operand .minusOne :: .operator .mul :: .opening ::
          (← scan? (position + 2) true rest)
      | _ => inRange (.error (.syntaxError (.looseMinus position)))
    else
      match Operator.ofSymbol? c with
      | some op => return .operator op :: (← scan? (position + 1) true rest)
      | none => inRange (.error (.syntaxError (.strayCharacter c position)))

theorem signed?_eq {digits : List Char} {n : Int64} (negative : Bool)
    (h : wordOfDigits digits = .ok n) : signed? negative n = some (signed negative n) := by
  have hne : n ≠ Int64.minValue := by
    rintro rfl
    exact absurd (minValue_lt_signed false h) (by decide)
  cases negative with
  | false => rfl
  | true => exact if_neg hne

theorem numberOperand?_eq (negative : Bool) (digits : List Char) :
    numberOperand? negative digits = inRange (numberOperand negative digits) := by
  refine bind_inRange fun n hn => ?_
  rw [signed?_eq negative hn]
  rfl

/-- The sign is settled before the denominator is read, which makes no difference in range. -/
theorem ratioOperand?_eq (negative : Bool) (num den : List Char) :
    ratioOperand? negative num den = inRange (ratioOperand negative num den) := by
  refine bind_inRange fun n hn => ?_
  rw [signed?_eq negative hn, ofOption_some]
  exact bind_inRange fun d _ => rfl

theorem scan?_eq (position : Nat) (fresh : Bool) (ls : List Lexeme) :
    scan? position fresh ls = inRange (scan position fresh ls) := by
  -- the guards are in the operands only; the branches are those of `scan`
  fun_induction scan position fresh ls with
  | case1 position fresh => rfl
  | case2 position fresh digits rest ih =>
    rw [scan?, numberOperand?_eq]
    exact bind_inRange fun o _ => map_eq ih _
  | case3 position fresh num den rest ih =>
    rw [scan?, ratioOperand?_eq]
    exact bind_inRange fun o _ => map_eq ih _
  | case4 position fresh rest ih =>
    rw [scan?.eq_def]
    exact map_eq ih _
  | case5 position fresh rest ih =>
    rw [scan?.eq_def]
    exact map_eq ih _
  | case6 position fresh c hopening hclosing hminus digits rest ih =>
    rw [scan?.eq_def]
    simp only [if_neg hopening, if_neg hclosing, if_pos hminus, numberOperand?_eq]
    exact bind_inRange fun o _ => map_eq ih _
  | case7 position fresh c hopening hclosing hminus num den rest ih =>
    rw [scan?.eq_def]
    simp only [if_neg hopening, if_neg hclosing, if_pos hminus, ratioOperand?_eq]
    exact bind_inRange fun o _ => map_eq ih _
  | case8 position fresh c hopening hclosing hminus rest ih =>
    rw [scan?.eq_def]
    simp only [if_neg hopening, if_neg hclosing, if_pos hminus]
    exact map_eq ih _
  | case9 position fresh c rest hopening hclosing hminus hnumber hratio hgroup =>
    rw [scan?.eq_def]
    simp only [if_neg hopening, if_neg hclosing, if_pos hminus]
  | case10 position fresh c rest hopening hclosing hminus op hop ih =>
    rw [scan?.eq_def]
    simp only [if_neg hopening, if_neg hclosing, if_neg hminus, hop]
    exact map_eq ih _
  | case11 position fresh c rest hopening hclosing hminus hop =>
    rw [scan?.eq_def]
    simp only [if_neg hopening, if_neg hclosing, if_neg hminus, hop]

/-! Typed numbers. -/

def typedNumbers? (tokens : List Token) : Option (List Int64) :=
  ((operandsOf tokens).flatMap Operand.parts).mapM Word.magnitude?

def checkOffer? (tokens : List Token) (allowed : List Int64) : Guarded EvalError Unit := do
  inRange (takeTyped allowed (← ofOption (typedNumbers? tokens)))

theorem mapM_magnitude? {ns : List Int64} (h : ∀ n ∈ ns, Int64.minValue < n) :
    ns.mapM Word.magnitude? = some (ns.map magnitude) := by
  induction ns with
  | nil => rfl
  | cons n ns ih =>
    obtain ⟨hn, hns⟩ := List.forall_mem_cons.1 h
    have hne : n ≠ Int64.minValue := by
      rintro rfl
      exact absurd hn (by decide)
    have hmagnitude : Word.magnitude? n = some (magnitude n) := if_neg hne
    rw [List.mapM_cons, ih hns, hmagnitude]
    rfl

theorem checkOffer?_eq {fresh : Bool} {ls : List Lexeme} {tokens : List Token}
    (h : Scanned fresh ls tokens) (allowed : List Int64) :
    checkOffer? tokens allowed = inRange (checkOffer tokens allowed) := by
  have hmin : ∀ n ∈ (operandsOf tokens).flatMap Operand.parts, Int64.minValue < n := by
    intro n hn
    obtain ⟨o, ho, hn⟩ := List.mem_flatMap.1 hn
    exact h.minValue_lt o ho n hn
  have htyped : typedNumbers? tokens = some (typedNumbers tokens) := by
    have hparts : Operand.typed = fun o => o.parts.map magnitude := funext Operand.typed_eq
    rw [typedNumbers?, mapM_magnitude? hmin, List.map_flatMap, typedNumbers_eq, hparts]
  rw [checkOffer?, htyped]
  rfl

/-! Values. -/

def arithmetic (x : Option (Except ArithmeticError Parts)) : Guarded EvalError Parts :=
  ExceptT.mk (x.map (Except.mapError EvalError.ofArithmetic))

def value? : Operand → Guarded EvalError Parts
  | .integer n => inRange (.ok ⟨n, 1⟩)
  | .ratio num den => arithmetic (Parts.ofQuotient? num.toInt den.toInt)
  | .minusOne => inRange (.ok ⟨-1, 1⟩)

def applyTop? (op : Operator) : List Parts → Guarded EvalError (List Parts)
  | right :: left :: stack => do
    let value ← arithmetic (Parts.combine? op left right)
    return value :: stack
  | _ => inRange (.error .malformed)

def evalStep? (stack : List Parts) : Token → Guarded EvalError (List Parts)
  | .operand o => return (← value? o) :: stack
  | .operator op => applyTop? op stack
  | .opening | .closing => inRange (.error .malformed)

def evalPostorder? (tokens : List Token) : Guarded EvalError Parts := do
  match ← tokens.foldlM evalStep? [] with
  | [value] => inRange (.ok value)
  | _ => inRange (.error .malformed)

theorem arithmetic_eq (x : Except ArithmeticError Fraction) :
    arithmetic (some (x.map parts)) =
      inRange ((x.mapError EvalError.ofArithmetic).map parts) := by
  cases x <;> rfl

theorem value?_eq (o : Operand) : value? o = inRange (o.value.map parts) := by
  cases o with
  | integer n => rfl
  | ratio num den =>
    have hwords := Parts.ofWords_eq num den
    rw [Parts.ofWords] at hwords
    rw [value?, Parts.ofQuotient?_eq, hwords, arithmetic_eq]
    rfl
  | minusOne => rfl

theorem applyTop?_eq (op : Operator) (stack : List Fraction) :
    applyTop? op (stack.map parts) = inRange ((applyTop op stack).map (List.map parts)) := by
  match stack with
  | [] | [_] => rfl
  | right :: left :: stack =>
    simp only [List.map_cons, applyTop?, applyTop, Parts.combine?_eq, Parts.apply_eq,
      arithmetic_eq]
    cases (op.apply left right).mapError EvalError.ofArithmetic <;> rfl

/-- A step on the pairs of a stack is the step on its fractions. -/
theorem evalStep?_eq (stack : List Fraction) (token : Token) :
    evalStep? (stack.map parts) token = inRange ((evalStep stack token).map (List.map parts)) := by
  cases token with
  | operand o =>
    rw [evalStep?, value?_eq, evalStep]
    cases o.value <;> rfl
  | operator op => exact applyTop?_eq op stack
  | opening => rfl
  | closing => rfl

theorem foldlM_evalStep? (tokens : List Token) (stack : List Fraction) :
    tokens.foldlM evalStep? (stack.map parts) =
      inRange ((tokens.foldlM evalStep stack).map (List.map parts)) := by
  induction tokens generalizing stack with
  | nil => rfl
  | cons token tokens ih =>
    rw [List.foldlM_cons, List.foldlM_cons, evalStep?_eq]
    cases evalStep stack token with
    | error e => rfl
    | ok next => exact ih next

theorem evalPostorder?_eq (tokens : List Token) :
    evalPostorder? tokens = inRange ((evalPostorder tokens).map parts) := by
  have hrun := foldlM_evalStep? tokens []
  rw [List.map_nil] at hrun
  rw [evalPostorder?, evalPostorder, hrun]
  cases tokens.foldlM evalStep [] with
  | error e => rfl
  | ok stack => rcases stack with _ | ⟨value, _ | ⟨next, stack⟩⟩ <;> rfl

/-! Answers. -/

def evaluate? (answer : String) (allowed : List Int64) : Guarded EvalError Parts := do
  let normal ← ofOption (normalChars? answer.toList)
  let tokens ← scan? 0 true (lexemes (pieces normal))
  checkOffer? tokens allowed
  evalPostorder? (← inRange (toPostorder tokens))

theorem evaluate?_eq (answer : String) (allowed : List Int64) :
    evaluate? answer allowed = inRange ((evaluate answer allowed).map parts) := by
  rw [evaluate?, normalChars?_eq, ofOption_some]
  -- the normal form is there, and the scan goes on with it
  change (scan? 0 true (lexemes (pieces (normalChars answer.toList))) >>= _) = _
  rw [scan?_eq]
  refine bind_inRange_map fun tokens htokens => ?_
  rw [checkOffer?_eq (scan_eq_ok_iff.1 htokens)]
  refine bind_inRange_map fun _ _ => bind_inRange_map fun postorder _ => ?_
  exact evalPostorder?_eq postorder

end Expression

open Fraction (Parts parts)

def Verdict.parts (v : Verdict) : Bool × Option Parts × Option String :=
  (v.accepted, v.value.map Fraction.parts, v.reason)

def checkAnswer? (answer : String) (numbers : List Int64) (target : Fraction) :
    Option (Bool × Option Parts × Option String) := do
  match ← (Expression.evaluate? answer numbers).run with
  | .ok value =>
    if value = target.parts then return (true, some value, none)
    else return (false, some value, some Verdict.wrongValue)
  | .error e => return (false, none, some e.code)

theorem parts_inj {a b : Fraction} : a.parts = b.parts ↔ a = b := by
  constructor
  · intro h
    cases a
    cases b
    cases h
    rfl
  · exact congrArg Fraction.parts

/-- Guarding the operations changes no verdict, so none of them is ever out of range. -/
theorem checkAnswer?_eq (answer : String) (numbers : List Int64) (target : Fraction) :
    checkAnswer? answer numbers target = some (checkAnswer answer numbers target).parts := by
  rw [checkAnswer?, checkAnswer, Expression.evaluate?_eq]
  cases Expression.evaluate answer numbers with
  | error e => rfl
  | ok value =>
    change (if value.parts = target.parts then _ else _) = _
    by_cases h : value = target
    · simp only [if_pos (parts_inj.2 h), if_pos h]
      rfl
    · simp only [if_neg fun heq => h (parts_inj.1 heq), if_neg h]
      rfl

/-- The numbers that are read from any text are words whose opposites are words, too. -/
theorem tokenize_between {text : String} {tokens : List Expression.Token}
    (h : Expression.tokenize text = .ok tokens) :
    ∀ o ∈ Expression.operandsOf tokens, ∀ n ∈ o.parts,
      -Int64.maxValue.toInt ≤ n.toInt ∧ n.toInt ≤ Int64.maxValue.toInt := by
  intro o ho n hn
  have hmin := Int64.lt_iff_toInt_lt.1 ((Expression.scan_eq_ok_iff.1 h).minValue_lt o ho n hn)
  have hlt := n.toInt_lt
  rw [Int64.toInt_minValue] at hmin
  rw [Int64.toInt_maxValue]
  omega

/-- Every answer gets its verdict with no operation out of range, and the numbers that are read from
any text are so far from the least word that they have opposites. -/
theorem operations_in_range (answer : String) (numbers : List Int64) (target : Fraction) :
    checkAnswer? answer numbers target = some (checkAnswer answer numbers target).parts ∧
      ∀ (text : String) (tokens : List Expression.Token),
        Expression.tokenize text = .ok tokens →
          ∀ o ∈ Expression.operandsOf tokens, ∀ n ∈ o.parts,
            -Int64.maxValue.toInt ≤ n.toInt ∧ n.toInt ≤ Int64.maxValue.toInt :=
  ⟨checkAnswer?_eq answer numbers target, fun _ _ h => tokenize_between h⟩

theorem operations_in_range_least :
    Expression.tokenize "-9223372036854775807/0" =
        .ok [.operand (.ratio (-9223372036854775807) 0)] ∧
      checkAnswer? "-9223372036854775807/0" [9223372036854775807, 0] Fraction.one =
        some (false, none, some "division_by_zero") ∧
      ∀ n ∈ (Expression.Operand.ratio (-9223372036854775807) 0).parts,
        -Int64.maxValue.toInt ≤ n.toInt ∧ n.toInt ≤ Int64.maxValue.toInt := by
  have htokens : Expression.tokenize "-9223372036854775807/0" =
      .ok [.operand (.ratio (-9223372036854775807) 0)] := by decide +kernel
  have hverdict : (checkAnswer "-9223372036854775807/0" [9223372036854775807, 0]
      Fraction.one).parts = (false, none, some "division_by_zero") := by decide +kernel
  obtain ⟨hchecked, hread⟩ := operations_in_range "-9223372036854775807/0" [9223372036854775807, 0]
    Fraction.one
  rw [hverdict] at hchecked
  exact ⟨htokens, hchecked, hread _ _ htokens _ (List.mem_singleton.2 rfl)⟩

end TargetQuiz

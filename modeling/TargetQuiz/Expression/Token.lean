import TargetQuiz.Fraction.Basic
import TargetQuiz.Operator
import TargetQuiz.Text.Numeral
import TargetQuiz.Text.Quoted

/-! Tokens of a normal text and the errors of answers. Pieces are the runs of digits and the single
other characters; in the lexemes some runs have become literal fractions; in the tokens every minus
sign is a sign, an operator or a factor of minus one. -/
namespace TargetQuiz.Expression

/-- What is wrong with the form of an answer. Positions count characters from zero. -/
inductive SyntaxFault where
  | looseMinus (position : Nat)
  | strayCharacter (c : Char) (position : Nat)
  | parentheses
  deriving DecidableEq, Repr

def SyntaxFault.message : SyntaxFault → String
  | .looseMinus position => s!"invalid unary minus at position {position}"
  | .strayCharacter c position => s!"invalid character {Text.quotedChar c} at position {position}"
  | .parentheses => "mismatched parentheses"

inductive EvalError where
  | divisionByZero
  | syntaxError (fault : SyntaxFault)
  | malformed
  | numberNotAllowed (n : Int64)
  | overflow
  deriving DecidableEq, Repr

namespace EvalError

def code : EvalError → String
  | divisionByZero => "division_by_zero"
  | syntaxError _ => "syntax_error"
  | malformed => "malformed_expression"
  | numberNotAllowed _ => "number_not_allowed"
  | overflow => "overflow"

def message : EvalError → String
  | divisionByZero => "division by zero"
  | syntaxError fault => "syntax error: " ++ fault.message
  | malformed => "malformed expression"
  | numberNotAllowed n => s!"number {n.toInt} is not available"
  | overflow => "number out of range"

def ofArithmetic : ArithmeticError → EvalError
  | .divisionByZero => divisionByZero
  | .overflow => overflow

end EvalError

inductive Operand where
  | integer (n : Int64)
  /-- A typed literal fraction, not reduced; its denominator may be zero. -/
  | ratio (num den : Int64)
  /-- The factor that a minus sign before a group stands for. No number was typed for it. -/
  | minusOne
  deriving DecidableEq, Repr

inductive Token where
  | operand (o : Operand)
  | operator (op : Operator)
  | opening
  | closing
  deriving DecidableEq, Repr

def magnitude (n : Int64) : Int64 := Int64.ofInt n.toInt.natAbs

namespace Operand

def value : Operand → Except EvalError Fraction
  | integer n => .ok (Fraction.whole n)
  | ratio num den => (Fraction.ofWords num den).mapError EvalError.ofArithmetic
  | minusOne => .ok (Fraction.whole (-1))

def typed : Operand → List Int64
  | integer n => [magnitude n]
  | ratio num den => [magnitude num, magnitude den]
  | minusOne => []

end Operand

def Token.typed : Token → List Int64
  | .operand o => o.typed
  | _ => []

inductive Piece where
  | run (digits : List Char)
  | mark (c : Char)
  deriving DecidableEq, Repr

def pieces : List Char → List Piece
  | [] => []
  | c :: cs =>
    if c.isDigit then
      match pieces cs with
      | .run digits :: rest => .run (c :: digits) :: rest
      | rest => .run [c] :: rest
    else .mark c :: pieces cs

inductive Lexeme where
  | number (digits : List Char)
  | ratio (num den : List Char)
  | mark (c : Char)
  deriving DecidableEq, Repr

/-- Join each run, slash, run into a literal fraction, from the left. -/
def lexemes : List Piece → List Lexeme
  | [] => []
  | .run num :: .mark '/' :: .run den :: rest => .ratio num den :: lexemes rest
  | .run digits :: rest => .number digits :: lexemes rest
  | .mark c :: rest => .mark c :: lexemes rest

def wordOfDigits (digits : List Char) : Except EvalError Int64 :=
  match Word.int64? (Numeral.value digits) with
  | some n => .ok n
  | none => .error .overflow

def signed (negative : Bool) (n : Int64) : Int64 := if negative then -n else n

def numberOperand (negative : Bool) (digits : List Char) : Except EvalError Operand := do
  let n ← wordOfDigits digits
  return .integer (signed negative n)

def ratioOperand (negative : Bool) (num den : List Char) : Except EvalError Operand := do
  let n ← wordOfDigits num
  let d ← wordOfDigits den
  return .ratio (signed negative n) d

/-- The tokens of lexemes, the first of which is at `position`; `fresh` says that an operand has
to come next, so that a minus sign is no operator. -/
def scan (position : Nat) (fresh : Bool) : List Lexeme → Except EvalError (List Token)
  | [] => .ok []
  | .number digits :: rest => do
    let o ← numberOperand false digits
    return .operand o :: (← scan (position + digits.length) false rest)
  | .ratio num den :: rest => do
    let o ← ratioOperand false num den
    return .operand o :: (← scan (position + (num.length + 1 + den.length)) false rest)
  | .mark '(' :: rest => return .opening :: (← scan (position + 1) true rest)
  | .mark ')' :: rest => return .closing :: (← scan (position + 1) false rest)
  | .mark c :: rest =>
    if c = '-' ∧ fresh then
      match rest with
      | .number digits :: rest => do
        let o ← numberOperand true digits
        return .operand o :: (← scan (position + 1 + digits.length) false rest)
      | .ratio num den :: rest => do
        let o ← ratioOperand true num den
        return .operand o :: (← scan (position + 1 + (num.length + 1 + den.length)) false rest)
      | .mark '(' :: rest =>
        -- two tokens of their own: an operator on the left takes the factor without the group
        return .operand .minusOne :: .operator .mul :: .opening :: (← scan (position + 2) true rest)
      | _ => .error (.syntaxError (.looseMinus position))
    else
      match Operator.ofSymbol? c with
      | some op => return .operator op :: (← scan (position + 1) true rest)
      | none => .error (.syntaxError (.strayCharacter c position))

def tokensOfChars (cs : List Char) : Except EvalError (List Token) :=
  scan 0 true (lexemes (pieces cs))

def tokenize (s : String) : Except EvalError (List Token) := tokensOfChars s.toList

end TargetQuiz.Expression

import TargetQuiz.Expression.Normal
import TargetQuiz.Expression.Token

/-! Evaluation of answers. Tokens are checked against the offer, arranged in postorder and evaluated
on a stack; the first step that fails decides the error. A tree is what a postorder means. -/
namespace TargetQuiz.Expression

inductive Tree where
  | leaf (o : Operand)
  | node (op : Operator) (left right : Tree)
  deriving DecidableEq, Repr

namespace Tree

def postorder : Tree → List Token
  | leaf o => [.operand o]
  | node op left right => left.postorder ++ right.postorder ++ [.operator op]

def operands : Tree → List Operand
  | leaf o => [o]
  | node _ left right => left.operands ++ right.operands

def eval : Tree → Except EvalError Fraction
  | leaf o => o.value
  | node op left right => do
    let a ← left.eval
    let b ← right.eval
    (op.apply a b).mapError EvalError.ofArithmetic

end Tree

/-- What waits while an answer is read: an operator, or a group that is still open. -/
inductive Pending where
  | operator (op : Operator)
  | group
  deriving DecidableEq, Repr

/-- Release the operators at the top that bind at least as tightly as the one that arrives. -/
def release (arriving : Operator) : List Pending → List Token × List Pending
  | .operator top :: rest =>
    if top.precedence < arriving.precedence then ([], .operator top :: rest)
    else
      let (out, kept) := release arriving rest
      (.operator top :: out, kept)
  | pending => ([], pending)

def closeGroup : List Pending → Except EvalError (List Token × List Pending)
  | [] => .error (.syntaxError .parentheses)
  | .group :: rest => .ok ([], rest)
  | .operator top :: rest => do
    let (out, kept) ← closeGroup rest
    return (.operator top :: out, kept)

def releaseAll : List Pending → Except EvalError (List Token)
  | [] => .ok []
  | .group :: _ => .error (.syntaxError .parentheses)
  | .operator top :: rest => return .operator top :: (← releaseAll rest)

def arrange (pending : List Pending) : List Token → Except EvalError (List Token)
  | [] => releaseAll pending
  | .operand o :: rest => return .operand o :: (← arrange pending rest)
  | .operator op :: rest => do
    let (out, kept) := release op pending
    return out ++ (← arrange (.operator op :: kept) rest)
  | .opening :: rest => arrange (.group :: pending) rest
  | .closing :: rest => do
    let (out, kept) ← closeGroup pending
    return out ++ (← arrange kept rest)

def toPostorder (tokens : List Token) : Except EvalError (List Token) := arrange [] tokens

def applyTop (op : Operator) : List Fraction → Except EvalError (List Fraction)
  | right :: left :: stack => do
    let value ← (op.apply left right).mapError EvalError.ofArithmetic
    return value :: stack
  | _ => .error .malformed

def evalStep (stack : List Fraction) : Token → Except EvalError (List Fraction)
  | .operand o => return (← o.value) :: stack
  | .operator op => applyTop op stack
  | .opening | .closing => .error .malformed

/-- Evaluate tokens in postorder. Exactly one value has to be left. -/
def evalPostorder (tokens : List Token) : Except EvalError Fraction := do
  match ← tokens.foldlM evalStep [] with
  | [value] => .ok value
  | _ => .error .malformed

def takeTyped (available : List Int64) : List Int64 → Except EvalError Unit
  | [] => .ok ()
  | n :: rest =>
    if n ∈ available then takeTyped (available.erase n) rest
    else .error (.numberNotAllowed n)

def typedNumbers (tokens : List Token) : List Int64 := tokens.flatMap Token.typed

/-- Check that the typed numbers come from the offer, each offered number used at most once. -/
def checkOffer (tokens : List Token) (allowed : List Int64) : Except EvalError Unit :=
  takeTyped allowed (typedNumbers tokens)

def evaluateChars (cs : List Char) (allowed : List Int64) : Except EvalError Fraction := do
  let tokens ← tokensOfChars (normalChars cs)
  checkOffer tokens allowed
  evalPostorder (← toPostorder tokens)

def evaluateFreelyChars (cs : List Char) : Except EvalError Fraction := do
  let tokens ← tokensOfChars (normalChars cs)
  evalPostorder (← toPostorder tokens)

def evaluate (answer : String) (allowed : List Int64) : Except EvalError Fraction :=
  evaluateChars answer.toList allowed

def evaluateFreely (answer : String) : Except EvalError Fraction :=
  evaluateFreelyChars answer.toList

/-- Whether an answer uses offered numbers only and has exactly the value `target`. -/
def isValid (answer : String) (allowed : List Int64) (target : Fraction) : Bool :=
  match evaluate answer allowed with
  | .ok value => value == target
  | .error _ => false

end TargetQuiz.Expression

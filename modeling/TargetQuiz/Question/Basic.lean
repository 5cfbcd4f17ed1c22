import TargetQuiz.Expression.Evaluate
import TargetQuiz.Question.Payload
import TargetQuiz.Wire.Values

/-! Verdicts on answers, and questions as they are read back from their transport form. A payload
and a canonical answer that were not made together are refused. -/
namespace TargetQuiz

structure Verdict where
  accepted : Bool
  value : Option Fraction
  reason : Option String
  deriving DecidableEq

def Verdict.wrongValue : String := "wrong_value"

/-- Check an answer against the numbers on offer and the target. -/
def checkAnswer (answer : String) (numbers : List Int64) (target : Fraction) : Verdict :=
  match Expression.evaluate answer numbers with
  | .ok value =>
    if value = target then ⟨true, some value, none⟩
    else ⟨false, some value, some Verdict.wrongValue⟩
  | .error e => ⟨false, none, some e.code⟩

instance : Wire Verdict where
  toJson v :=
    .object [("accepted", Wire.toJson v.accepted), ("value", Wire.toJson v.value),
      ("reason", Wire.toJson v.reason)]
  ofJson? v := do
    match ← Wire.record? ["accepted", "value", "reason"] v with
    | [accepted, value, reason] =>
      return ⟨← Wire.required? accepted, ← Wire.optional? value, ← Wire.optional? reason⟩
    | _ => none

inductive TransportError where
  /-- The part before the separator is not the JSON text of a payload. -/
  | json
  | missingSeparator
  | invalidTarget (cause : ArithmeticError)
  | invalidAnswer (cause : FractionTextError)
  | answerMismatch (target answer : String)
  deriving DecidableEq, Repr

def TransportError.message : TransportError → String
  | .json => "invalid payload json"
  | .missingSeparator => "missing '@@' separator"
  | .invalidTarget cause => "invalid target: " ++ cause.message
  | .invalidAnswer cause => "invalid canonical answer: " ++ cause.message
  | .answerMismatch target answer =>
    "canonical answer " ++ answer ++ " does not match target " ++ target

structure ClientView where
  display : String
  numbers : List Int64
  deriving DecidableEq, Repr

instance : Wire ClientView where
  toJson c := .object [("display", Wire.toJson c.display), ("numbers", Wire.toJson c.numbers)]
  ofJson? v := do
    match ← Wire.record? ["display", "numbers"] v with
    | [display, numbers] => return ⟨← Wire.required? display, ← Wire.required? numbers⟩
    | _ => none

structure Question where
  target : Fraction
  numbers : List Int64
  display : String
  canonicalAnswer : String
  deriving DecidableEq

namespace Question

/-- Cut a reversed text at its first separator: what stands before it and after it, both still
reversed. -/
def cutReversed : List Char → Option (List Char × List Char)
  | '@' :: '@' :: rest => some ([], rest)
  | c :: rest => (cutReversed rest).map fun (before, after) => (c :: before, after)
  | [] => none

def cutAtLast (cs : List Char) : Option (List Char × List Char) :=
  (cutReversed cs.reverse).map fun (answer, payload) => (payload.reverse, answer.reverse)

def ofTransport (raw : String) : Except TransportError Question := do
  -- the display in the payload may have separators of its own
  let some (json, answer) := cutAtLast raw.toList | throw .missingSeparator
  let some (payload : QuestionPayload) := (Json.parseChars json).bind Wire.ofJson? | throw .json
  let target ← payload.target.toFraction.mapError .invalidTarget
  let parsed ← (Fraction.parse (String.ofList answer)).mapError .invalidAnswer
  if parsed = target then
    return ⟨target, payload.numbers, payload.display, target.canonical⟩
  else throw (.answerMismatch target.canonical (String.ofList (Text.trim answer)))

def clientView (q : Question) : ClientView := ⟨q.display, q.numbers⟩

def check (q : Question) (answer : String) : Verdict := checkAnswer answer q.numbers q.target

end Question
end TargetQuiz

import TargetQuiz.Puzzle.Basic
import TargetQuiz.Wire.Values

namespace TargetQuiz

structure FractionParts where
  num : Int64
  den : Int64
  deriving DecidableEq, Repr

/-- An exact target as it is sent. Nothing is promised about its fields. -/
structure TargetPayload where
  numerator : Int64
  denominator : Int64
  whole : Int64
  fraction : FractionParts
  deriving DecidableEq, Repr

namespace TargetPayload

def ofFraction (f : Fraction) : TargetPayload :=
  let rest := f.fractionalPart
  ⟨f.num, f.den, f.floor, ⟨rest.num, rest.den⟩⟩

/-- The target that is meant, reduced again. -/
def toFraction (t : TargetPayload) : Except ArithmeticError Fraction :=
  Fraction.ofWords t.numerator t.denominator

end TargetPayload

instance : Wire FractionParts where
  toJson p := .object [("num", Wire.toJson p.num), ("den", Wire.toJson p.den)]
  ofJson? v := do
    match ← Wire.record? ["num", "den"] v with
    | [num, den] => return ⟨← Wire.required? num, ← Wire.required? den⟩
    | _ => none

instance : Wire TargetPayload where
  toJson t :=
    .object [("numerator", Wire.toJson t.numerator), ("denominator", Wire.toJson t.denominator),
      ("whole", Wire.toJson t.whole), ("fraction", Wire.toJson t.fraction)]
  ofJson? v := do
    match ← Wire.record? ["numerator", "denominator", "whole", "fraction"] v with
    | [numerator, denominator, whole, fraction] =>
      return ⟨← Wire.required? numerator, ← Wire.required? denominator, ← Wire.required? whole,
        ← Wire.required? fraction⟩
    | _ => none

structure QuestionPayload where
  target : TargetPayload
  display : String
  approx : Binary64
  numbers : List Int64
  deriving DecidableEq, Repr

instance : Wire QuestionPayload where
  toJson q :=
    .object [("target", Wire.toJson q.target), ("display", Wire.toJson q.display),
      ("approx", Wire.toJson q.approx), ("numbers", Wire.toJson q.numbers)]
  ofJson? v := do
    match ← Wire.record? ["target", "display", "approx", "numbers"] v with
    | [target, display, approx, numbers] =>
      return ⟨← Wire.required? target, ← Wire.required? display, ← Wire.required? approx,
        ← Wire.required? numbers⟩
    | _ => none

namespace QuestionPayload

def ofPuzzle (p : Puzzle) : QuestionPayload :=
  ⟨.ofFraction p.target, p.display, p.approx, p.numbers⟩

def separator : List Char := ['@', '@']

/-- The parts of a target with a slash between them, as they are. -/
def answerChars (t : TargetPayload) : List Char :=
  Numeral.ofInt t.numerator.toInt ++ '/' :: Numeral.ofInt t.denominator.toInt

def toTransport (q : QuestionPayload) : String :=
  String.ofList ((Wire.toJson q).text ++ separator ++ answerChars q.target)

end QuestionPayload

def Puzzle.transport (p : Puzzle) : String := (QuestionPayload.ofPuzzle p).toTransport

end TargetQuiz

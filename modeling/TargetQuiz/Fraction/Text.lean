import TargetQuiz.Fraction.Basic
import TargetQuiz.Text.Numeral
import TargetQuiz.Text.Quoted

namespace TargetQuiz

inductive FractionTextError where
  | invalid (text : String)
  | arithmetic (cause : ArithmeticError)
  deriving DecidableEq, Repr

def FractionTextError.message : FractionTextError → String
  | .invalid text => "invalid fraction literal: " ++ Text.quoted text
  | .arithmetic cause => cause.message

namespace Fraction

def canonicalChars (f : Fraction) : List Char :=
  Numeral.ofInt f.num.toInt ++ '/' :: Numeral.ofInt f.den.toInt

def canonical (f : Fraction) : String := String.ofList f.canonicalChars

/-- The numerator alone when the fraction is whole, otherwise the canonical form. -/
def displayChars (f : Fraction) : List Char :=
  if f.isWhole then Numeral.ofInt f.num.toInt else f.canonicalChars

instance : ToString Fraction := ⟨fun f => String.ofList f.displayChars⟩

def describe (f : Fraction) : String := "Fraction(" ++ f.canonical ++ ")"

def part? (cs : List Char) : Option Int64 :=
  (Numeral.int? (Text.trim cs)).bind Word.int64?

/-- The parts of a text before and after its first slash, if it has one. -/
def splitAtSlash (cs : List Char) : List Char × Option (List Char) :=
  match cs.dropWhile (· ≠ '/') with
  | [] => (cs, none)
  | _ :: after => (cs.takeWhile (· ≠ '/'), some after)

/-- Read an integer, or two integers with a slash between them. -/
def parse (s : String) : Except FractionTextError Fraction :=
  match splitAtSlash s.toList with
  | (text, none) =>
    match part? text with
    | some n => .ok (whole n)
    | none => .error (.invalid s)
  | (before, some after) =>
    match part? before, part? after with
    | some n, some d => (ofWords n d).mapError .arithmetic
    | _, _ => .error (.invalid s)

end Fraction
end TargetQuiz

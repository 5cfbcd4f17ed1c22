import TargetQuiz.Fraction.Basic
import TargetQuiz.Text.Numeral
import TargetQuiz.Tier

/-! Display texts of targets. A tier has one notation, made from the exact parts of the target and
never from its approximation. -/
namespace TargetQuiz.Display

def sign (f : Fraction) : List Char := if f.num < 0 then ['-'] else []

/-- A target whose denominator is `10 ^ places`, as a decimal with that many places. -/
def decimal (f : Fraction) (places : Nat) : List Char :=
  let magnitude := f.num.toInt.natAbs
  sign f ++ Numeral.ofNat (magnitude / Nat.pow 10 places) ++
    ['.'] ++ Numeral.padded places (magnitude % Nat.pow 10 places)

def dropTrailing (c : Char) (cs : List Char) : List Char := (cs.reverse.dropWhile (· == c)).reverse

/-- A decimal without the zeros at its end, and without its point when no place is left. -/
def trimDecimal (cs : List Char) : List Char :=
  -- the zeros of a text without a point belong to a whole number
  if '.' ∈ cs then dropTrailing '.' (dropTrailing '0' cs) else cs

/-- A fraction below one, or a whole and a fraction; the sign applies to both. -/
def mixed (f : Fraction) : List Char :=
  let magnitude := f.num.toInt.natAbs
  let den := f.den.toInt.natAbs
  let whole := magnitude / den
  let proper := Numeral.ofNat (magnitude % den) ++ ['/'] ++ Numeral.ofNat den
  if whole = 0 then sign f ++ proper else sign f ++ Numeral.ofNat whole ++ [' '] ++ proper

def chars (f : Fraction) : DisplayRule → List Char
  | .wholeNumber => Numeral.ofInt f.floor.toInt
  | .tenthsOrFraction =>
    if f.isWhole then Numeral.ofInt f.num.toInt
    else if f.den = 10 then decimal f 1
    else Numeral.ofInt f.num.toInt ++ ['/'] ++ Numeral.ofInt f.den.toInt
  | .hundredthsOrMixed =>
    if f.isWhole then Numeral.ofInt f.num.toInt
    else if f.den = 100 then trimDecimal (decimal f 2)
    else mixed f

end TargetQuiz.Display

namespace TargetQuiz

def Fraction.display (f : Fraction) (rule : DisplayRule) : String :=
  String.ofList (Display.chars f rule)

def Fraction.displayAtLevel (f : Fraction) (level : Int64) : String :=
  f.display (DisplayRule.ofLevel level)

end TargetQuiz

import TargetQuiz.Fraction.Basic
import TargetQuiz.Text.Numeral

namespace TargetQuiz

structure Decomposition where
  numbers : List Int64
  text : List Char
  deriving DecidableEq, Repr

namespace Decomposition

/-- Two positive addends of a whole `w ≥ 2`, the first at most nine. -/
def splitWhole (w : Int) : Int × Int :=
  let first := max 1 (min 9 (w / 2))
  (first, w - first)

def ofInts (numbers : List Int) (text : List Char) : Decomposition :=
  ⟨numbers.map Int64.ofInt, text⟩

def ofWhole (t : Int) : Decomposition :=
  if 2 ≤ t then
    let (a, b) := splitWhole t
    ofInts [a, b] (Numeral.ofInt a ++ ['+'] ++ Numeral.ofInt b)
  else if t = 1 then ofInts [2, 2] ['2', '/', '2']
  else ofInts [1, 1 - t] (['1', '-'] ++ Numeral.ofInt (1 - t))

/-- The quotient of the parts of a target, with the sign in front. -/
def ofParts (n d : Int) : Decomposition :=
  let quotient := Numeral.ofNat n.natAbs ++ ['/'] ++ Numeral.ofInt d
  ofInts [(n.natAbs : Int), d] (if n < 0 then '-' :: quotient else quotient)

def ofMixed (whole n d : Int) : Decomposition :=
  let quotient := Numeral.ofInt n ++ ['/'] ++ Numeral.ofInt d
  if whole = 0 then ofInts [n, d] quotient
  else if whole = 1 then ofInts [1, n, d] (['1', '+'] ++ quotient)
  else
    let (a, b) := splitWhole whole
    ofInts [a, b, n, d] (Numeral.ofInt a ++ ['+'] ++ Numeral.ofInt b ++ ['+'] ++ quotient)

end Decomposition

/-- The decomposition of a target; a denominator above the cap is not split off. -/
def Fraction.decompose (target : Fraction) (denominatorCap : Int64) : Decomposition :=
  if target.isWhole then Decomposition.ofWhole target.num.toInt
  else
    let whole := target.floor
    let rest := target.fractionalPart
    if whole < 0 ∨ denominatorCap < rest.den then
      Decomposition.ofParts target.num.toInt target.den.toInt
    else Decomposition.ofMixed whole.toInt rest.num.toInt rest.den.toInt

theorem Fraction.length_decompose (target : Fraction) (cap : Int64) :
    2 ≤ (target.decompose cap).numbers.length ∧ (target.decompose cap).numbers.length ≤ 4 := by
  unfold Fraction.decompose Decomposition.ofWhole Decomposition.ofParts Decomposition.ofMixed
  dsimp only
  repeat' split
  all_goals simp [Decomposition.ofInts]

end TargetQuiz

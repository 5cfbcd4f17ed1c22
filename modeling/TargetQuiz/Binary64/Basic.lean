import TargetQuiz.Fraction.Basic

/-! Binary floating point, for display only. A number is held as its bits; those of the magnitude,
read as a natural number, order the magnitudes, so rounding is integer arithmetic on them. -/
namespace TargetQuiz

structure Binary64 where
  bits : UInt64
  deriving DecidableEq, Repr, Inhabited

namespace Binary64

/-- The bit of the sign; the bits below it are the magnitude. -/
def signBit : Nat := 0x8000000000000000

/-- How many magnitudes share an exponent. -/
def perExponent : Nat := 0x10000000000000

def infinity : Nat := 0x7FF0000000000000

def ofMagnitude (negative : Bool) (magnitude : Nat) : Binary64 :=
  ⟨UInt64.ofNat (if negative then signBit + magnitude else magnitude)⟩

def isNegative (x : Binary64) : Bool := decide (signBit ≤ x.bits.toNat)

def magnitude (x : Binary64) : Nat := x.bits.toNat % signBit

def isFinite (x : Binary64) : Bool := decide (x.magnitude < infinity)

/-- The significand and the binary exponent of a finite magnitude: its value is their
`significand * 2 ^ exponent`. -/
def decode (magnitude : Nat) : Nat × Int :=
  if magnitude < perExponent then (magnitude, -1074)
  else (magnitude % perExponent + perExponent, (magnitude / perExponent : Nat) - 1075)

def twoPow (e : Int) : Nat × Nat := (Nat.pow 2 e.toNat, Nat.pow 2 (-e).toNat)

def quotient (magnitude : Nat) : Nat × Nat :=
  let (significand, exponent) := decode magnitude
  let (num, den) := twoPow exponent
  (significand * num, den)

def roundToEven (n d : Nat) : Nat :=
  let q := n / d
  let twice := 2 * (n % d)
  if twice < d ∨ (twice = d ∧ q % 2 = 0) then q else q + 1

/-- The greatest `e` with `2 ^ e ≤ n / d`, for positive `n` and `d`. -/
def exponentOf (n d : Nat) : Int :=
  let e : Int := (n.log2 : Int) - (d.log2 : Int)
  let (num, den) := twoPow e
  if d * num ≤ n * den then e else e - 1

/-- The magnitude nearest to `n / d`, a tie going to the even one. From the largest finite
magnitude on by half its last place the result is `infinity` or above. -/
def nearest (n d : Nat) : Nat :=
  if n = 0 then 0
  else
    let exponent := max (exponentOf n d - 52) (-1074)
    let (num, den) := twoPow exponent
    (exponent + 1074).toNat * perExponent + roundToEven (n * den) (d * num)

def nearestQuotient (a b : Nat) : Nat :=
  let (n, d) := quotient a
  let (n', d') := quotient b
  nearest (n * d') (d * n')

def nearestProduct (a b : Nat) : Nat :=
  let (n, d) := quotient a
  let (n', d') := quotient b
  nearest (n * n') (d * d')

end Binary64

/-- The approximation of a fraction: the quotient of its rounded parts, rounded. -/
def Fraction.approximate (f : Fraction) : Binary64 :=
  .ofMagnitude (decide (f.num < 0))
    (Binary64.nearestQuotient (Binary64.nearest f.num.toInt.natAbs 1)
      (Binary64.nearest f.den.toInt.natAbs 1))

end TargetQuiz

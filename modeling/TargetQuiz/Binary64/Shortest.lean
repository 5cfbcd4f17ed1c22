import TargetQuiz.Binary64.Basic

/-! The decimal with the fewest digits that rounds to a number. The grids of decimals are tried from
a coarse one down, until a neighbour of the number lies in the interval that rounds to it. -/
namespace TargetQuiz.Binary64

structure Scientific where
  digits : Nat
  exponent : Int
  deriving DecidableEq, Repr

def tenPow (e : Int) : Nat × Nat := (Nat.pow 10 e.toNat, Nat.pow 10 (-e).toNat)

/-- The reals that round to a magnitude. The value and both ends are `_ * num / den`, and the ends
belong to it when `closed` holds. -/
structure Interval where
  value : Nat
  lower : Nat
  upper : Nat
  num : Nat
  den : Nat
  closed : Bool
  deriving DecidableEq, Repr

/-- The interval of a finite magnitude. Below a power of two the next number is half as far away as
above it. -/
def interval (magnitude : Nat) : Interval :=
  let (significand, exponent) := decode magnitude
  let (num, den) := twoPow (exponent - 2)
  let below := if significand = perExponent ∧ -1074 < exponent then 1 else 2
  ⟨4 * significand, 4 * significand - below, 4 * significand + 2, num, den, significand % 2 == 0⟩

def Interval.contains (i : Interval) (digits : Nat) (exponent : Int) : Bool :=
  let (num, den) := tenPow exponent
  let point := digits * num * i.den
  let lower := i.lower * i.num * den
  let upper := i.upper * i.num * den
  if i.closed then decide (lower ≤ point ∧ point ≤ upper)
  else decide (lower < point ∧ point < upper)

/-- The neighbour of the value on the grid of `10 ^ exponent` that lies in the interval; of two
the nearer one, and of two at the same distance the even one. -/
def Interval.neighbour? (i : Interval) (exponent : Int) : Option Nat :=
  let (num, den) := tenPow exponent
  let n := i.value * i.num * den
  let d := num * i.den
  let below := n / d
  let nearest := roundToEven n d
  let farther := if nearest = below then below + 1 else below
  if i.contains nearest exponent then some nearest
  else if i.contains farther exponent then some farther
  else none

def Interval.shortestFrom (i : Interval) : Nat → Int → Scientific
  | 0, _ => ⟨0, 0⟩
  | grids + 1, exponent =>
    match i.neighbour? exponent with
    | some digits => ⟨digits, exponent⟩
    | none => i.shortestFrom grids (exponent - 1)

/-- How many grids are tried: the coarsest is at most two places above the highest digit, and with
seventeen digits a neighbour lies in the interval. -/
def gridCount : Nat := 20

def shortest (magnitude : Nat) : Scientific :=
  if magnitude = 0 then ⟨0, 0⟩
  else
    let (significand, exponent) := decode magnitude
    let top := ((significand.log2 : Int) + exponent) * 30103 / 100000 + 1
    (interval magnitude).shortestFrom gridCount top

end TargetQuiz.Binary64

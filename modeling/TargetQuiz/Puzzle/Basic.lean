import TargetQuiz.Binary64.Basic
import TargetQuiz.Chain.Search
import TargetQuiz.Display
import TargetQuiz.Fraction.Basic
import TargetQuiz.Fraction.Text
import TargetQuiz.Puzzle.Decomposition
import TargetQuiz.Random.Generator
import TargetQuiz.Random.RoundSeed
import TargetQuiz.Tier

/-! Generation of puzzles: a target is sampled, a few seeds are searched for a chain that reaches
it, and the numbers found are hidden among noise. When eleven draws of seeds reach nothing, the
target is decomposed. -/
namespace TargetQuiz.Puzzle

open Generator

/-- `whole` and `digits` places after the point, in units of one over `scale`. -/
def scaled (whole digits : Int64) (scale : Int) : Fraction :=
  (Fraction.ofQuotient (whole.toInt * scale + digits.toInt) scale).toOption.getD Fraction.zero

def drawMixed (whole : Int64) (g : Generator) : Fraction × Generator :=
  let (den, g) := g.between 2 10
  let (num, g) := g.between 1 (den - 1)
  (scaled whole num den.toInt, g)

/-- A decimal that is not whole: its part after the point is drawn from one up. -/
def drawDecimal (wholeMax : Int64) (scale : Int64) (g : Generator) : Fraction × Generator :=
  let (whole, g) := g.between 0 wholeMax
  let (digits, g) := g.between 1 (scale - 1)
  (scaled whole digits scale.toInt, g)

def drawCandidate (tier : Tier) (g : Generator) : Fraction × Generator :=
  match tier with
  | .easy =>
    let (n, g) := g.between 1 1000
    (Fraction.whole n, g)
  | .medium =>
    let (isDecimal, g) := g.coin
    if isDecimal then drawDecimal 50 10 g else drawMixed 0 g
  | .hard =>
    let (isDecimal, g) := g.coin
    if isDecimal then drawDecimal 100 100 g
    else
      let (whole, g) := g.between 1 10
      drawMixed whole g

def sampleTarget (tier : Tier) : Generator → Option (Fraction × Generator) :=
  drawUntil (drawCandidate tier) fun f => !tier.needsFraction || !f.isWhole

/-- Draw a number from one to `max` that is not the one to avoid. With `max` at most one there is
nothing to choose. -/
def drawAvoiding (max : Int64) (avoid : Option Int64) : Generator → Option (Int64 × Generator) :=
  drawUntil (between 1 max) fun n => some n != avoid || decide (max ≤ 1)

def noiseRedraws : Nat := 8

/-- Draw a number from one to `max`, again at most `redraws` times while it is there already. -/
def drawNoise (max : Int64) (numbers : List Int64) : Nat → Generator → Int64 × Generator
  | 0, g => g.between 1 max
  | redraws + 1, g =>
    let (n, g) := g.between 1 max
    if n ∈ numbers then drawNoise max numbers redraws g else (n, g)

def clamp (lo hi n : Int) : Int := max lo (min hi n)

/-- The numbers that stand in for a whole target `t`; those equal to `t` itself are useless. -/
def substitutes (t : Int64) : List Int64 :=
  [Int64.ofInt (clamp 1 10 (t.toInt / 2)), Int64.ofInt (clamp 1 20 (t.toInt / 3 + 1))].filter (· ≠ t)

/-- Add `room` numbers of noise from one to `max`. Every turn fills at least one place. -/
def addNoise (max : Int64) (avoid : Option Int64) (room : Nat) (numbers : List Int64)
    (g : Generator) : Option (List Int64 × Generator) :=
  match room with
  | 0 => some (numbers, g)
  | room + 1 =>
    let (n, g) := drawNoise max numbers noiseRedraws g
    if some n = avoid then
      match (substitutes n).take (room + 1) with
      | [] => do
        -- nothing stands in for the target one
        let (n, g) ← drawAvoiding (if max < 2 then 2 else max) avoid g
        addNoise max avoid room (numbers ++ [n]) g
      | a :: rest => addNoise max avoid (room - rest.length) (numbers ++ a :: rest) g
    else addNoise max avoid room (numbers ++ [n]) g
termination_by room

end TargetQuiz.Puzzle

namespace TargetQuiz

structure Puzzle where
  target : Fraction
  numbers : List Int64
  tier : Tier
  display : String
  approx : Binary64
  /-- An expression over the numbers that reaches the target. Players do not see it. -/
  solution : String
  usedFallback : Bool
  deriving DecidableEq

def Puzzle.canonicalAnswer (p : Puzzle) : String := p.target.canonical

namespace Puzzle

open Generator

structure Base where
  numbers : List Int64
  solution : String
  usedFallback : Bool
  deriving DecidableEq, Repr

/-- How often seeds are drawn anew after the first draw. -/
def seedRetries : Nat := 10

def fillerMax : Int64 := 10

/-- The number that must not be offered: a target that is whole. -/
def wholeTarget? (target : Fraction) : Option Int64 :=
  if target.isWhole then some target.num else none

/-- Draw `count` seeds up to `attempts` times, until some chain over them reaches the target. -/
def searchSeeds (target : Fraction) (seedMax : Int64) (count : Nat) :
    Nat → Generator → Option (Option Base × Generator)
  | 0, g => some (none, g)
  | attempts + 1, g => do
    let (seeds, g) ← draws (drawAvoiding seedMax (wholeTarget? target)) count g
    match findSolution seeds target with
    | some solution => return (some ⟨seeds, solution.expression, false⟩, g)
    | none => searchSeeds target seedMax count attempts g

def decomposed (target : Fraction) (denominatorCap : Int64) (g : Generator) :
    Option (Base × Generator) := do
  let parts := target.decompose denominatorCap
  let (filler, g) ← drawAvoiding fillerMax (wholeTarget? target) g
  return (⟨parts.numbers ++ [filler], String.ofList parts.text, true⟩, g)

def drawBase (tier : Tier) (target : Fraction) (g : Generator) : Option (Base × Generator) := do
  let params := tier.params
  let (count, g) := g.between params.seedCount.lo params.seedCount.hi
  let (base?, g) ← searchSeeds target params.seedMax count.toInt.toNat (seedRetries + 1) g
  match base? with
  | some base => return (base, g)
  | none => decomposed target params.denominatorCap g

/-- Make a puzzle of a tier. There is no result exactly when some draw would be repeated for
ever. -/
def generate (tier : Tier) (g : Generator) : Option (Puzzle × Generator) := do
  let params := tier.params
  let (target, g) ← sampleTarget tier g
  let (base, g) ← drawBase tier target g
  let (size, g) := g.between params.setSize.lo params.setSize.hi
  let (numbers, g) ← addNoise params.noiseMax (wholeTarget? target)
    (size.toInt.toNat - base.numbers.length) base.numbers g
  let (numbers, g) := g.shuffle numbers
  return ({ target, numbers, tier, display := target.display tier.displayRule,
            approx := target.approximate, solution := base.solution,
            usedFallback := base.usedFallback }, g)

def generateMany (tier : Tier) (count : Nat) (g : Generator) : Option (List Puzzle × Generator) :=
  draws (generate tier) count g

def ofRound (matchId : MatchId) (round : UInt32) (tier : Tier) : Option Puzzle :=
  (generate tier (Generator.ofRound matchId round tier.level)).map (·.1)

end Puzzle
end TargetQuiz

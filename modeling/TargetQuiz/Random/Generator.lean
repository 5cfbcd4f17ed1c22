/-! Random generators of two words, seeded by SplitMix64. A draw that is repeated until its value is
accepted has no bound in itself; it is given the number of states, 2^128, because after as many
refusals some state has come back. -/
namespace TargetQuiz.SplitMix

/-- What the counter goes up by: 2^64 over the golden ratio, made odd. -/
def increment : UInt64 := 0x9E3779B97F4A7C15

def finalise (z : UInt64) : UInt64 :=
  let z := (z ^^^ (z >>> 30)) * 0xBF58476D1CE4E5B9
  let z := (z ^^^ (z >>> 27)) * 0x94D049BB133111EB
  z ^^^ (z >>> 31)

def next (counter : UInt64) : UInt64 × UInt64 :=
  let counter := counter + increment
  (finalise counter, counter)

end TargetQuiz.SplitMix

namespace TargetQuiz

structure Generator where
  first : UInt64
  second : UInt64
  deriving DecidableEq, Repr

namespace Generator

/-- Rotation to the left by `k` bits, for `0 < k < 64`. -/
def rotateLeft (x k : UInt64) : UInt64 := x <<< k ||| x >>> (64 - k)

def ofSeed (seed : UInt64) : Generator :=
  let (first, counter) := SplitMix.next seed
  let (second, _) := SplitMix.next counter
  -- from two zero words the generator would draw nothing but zeros
  if first = 0 ∧ second = 0 then ⟨1, 1⟩ else ⟨first, second⟩

instance : Inhabited Generator := ⟨ofSeed 0⟩

def step (g : Generator) : Generator :=
  let mixed := g.second ^^^ g.first
  ⟨rotateLeft g.first 24 ^^^ mixed ^^^ (mixed <<< 16), rotateLeft mixed 37⟩

def output (g : Generator) : UInt64 := g.first + g.second

def next (g : Generator) : UInt64 × Generator := (g.output, g.step)

/-- Draw a number below `bound`. With bound zero nothing is drawn and the number is zero. -/
def below (bound : UInt64) (g : Generator) : UInt64 × Generator :=
  if bound = 0 then (0, g) else (g.output % bound, g.step)

/-- Draw a number from `lo` to `hi`, both included. A range of at most one number draws nothing
and gives `lo`. -/
def between (lo hi : Int64) (g : Generator) : Int64 × Generator :=
  if hi ≤ lo then (lo, g)
  else
    let (offset, g) := g.below (UInt64.ofNat ((hi.toInt - lo.toInt).toNat + 1))
    (Int64.ofInt (lo.toInt + offset.toNat), g)

def coin (g : Generator) : Bool × Generator := (g.output >>> 63 == 1, g.step)

/-- Draw the swap partners for the positions from `last` down to one, each at most its position. -/
def partners : Nat → Generator → List Nat × Generator
  | 0, g => ([], g)
  | last + 1, g =>
    let (j, g) := g.below (UInt64.ofNat (last + 2))
    let (js, g) := partners last g
    (j.toNat :: js, g)

/-- Swap the positions from the number of partners down to one with their partners, in order. -/
def swapAll {α : Type _} (xs : Array α) : List Nat → Array α
  | [] => xs
  | j :: js => swapAll (xs.swapIfInBounds (js.length + 1) j) js

def shuffle {α : Type _} (xs : List α) (g : Generator) : List α × Generator :=
  let (js, g) := g.partners (xs.length - 1)
  ((swapAll xs.toArray js).toList, g)

def draws {α : Type _} (draw : Generator → Option (α × Generator)) :
    Nat → Generator → Option (List α × Generator)
  | 0, g => some ([], g)
  | n + 1, g => do
    let (a, g) ← draw g
    let (as, g) ← draws draw n g
    return (a :: as, g)

def drawWithin {α : Type _} (draw : Generator → α × Generator) (accepted : α → Bool) :
    Nat → Generator → Option (α × Generator)
  | 0, _ => none
  | limit + 1, g =>
    let (a, g) := draw g
    if accepted a then some (a, g) else drawWithin draw accepted limit g

def stateCount : Nat := UInt64.size * UInt64.size

/-- Repeat a draw until its value is accepted. There is no result exactly when that never
happens: the limit is the number of states. -/
def drawUntil {α : Type _} (draw : Generator → α × Generator) (accepted : α → Bool)
    (g : Generator) : Option (α × Generator) :=
  drawWithin draw accepted stateCount g

end Generator
end TargetQuiz

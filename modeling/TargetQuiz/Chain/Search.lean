import Std.Data.HashSet
import TargetQuiz.Operator
import TargetQuiz.Text.Numeral

/-! Chains of operations from the left, such as `((3+4)*2)/5`, and the search for a shortest one
with a given value. Of the chains of a level with one value and the same positions only the first is
kept, because they go on alike. -/
namespace TargetQuiz

/-- A number with its position in the list that it is picked from. -/
abbrev Pick := Int64 × Nat

inductive Chain where
  | start (pick : Pick)
  | link (chain : Chain) (op : Operator) (pick : Pick)
  deriving DecidableEq, Repr

namespace Chain

def picks : Chain → List Pick
  | start pick => [pick]
  | link chain _ pick => chain.picks ++ [pick]

def operands (chain : Chain) : List Int64 := chain.picks.map (·.1)

def value : Chain → Except ArithmeticError Fraction
  | start pick => .ok (Fraction.whole pick.1)
  | link chain op pick => do op.apply (← chain.value) (Fraction.whole pick.1)

def operandText (n : Int64) : List Char :=
  if n < 0 then ['('] ++ Numeral.ofInt n.toInt ++ [')'] else Numeral.ofInt n.toInt

/-- The text of a chain. What stands on the left of an operator is in parentheses unless it is a
single number. -/
def text : Chain → List Char
  | start pick => operandText pick.1
  | link (start pick) op next => operandText pick.1 ++ [op.symbol] ++ operandText next.1
  | link chain op next => ['('] ++ chain.text ++ [')', op.symbol] ++ operandText next.1

/-- A chain with its value and with the set of the positions it uses, as the bits of a number. -/
structure Reached where
  chain : Chain
  value : Fraction
  used : Nat
  deriving DecidableEq

abbrev Key := Fraction × Nat

namespace Reached

def key (r : Reached) : Key := (r.value, r.used)

def ofPick (pick : Pick) : Reached :=
  ⟨.start pick, Fraction.whole pick.1, 1 <<< pick.2⟩

def extend? (r : Reached) (pick : Pick) (op : Operator) : Option Reached :=
  match op.apply r.value (Fraction.whole pick.1) with
  | .ok value => some ⟨.link r.chain op pick, value, r.used ||| 1 <<< pick.2⟩
  | .error _ => none

/-- All chains with one more link, by the position of the number and then by the operator. -/
def successors (picks : List Pick) (r : Reached) : List Reached :=
  picks.flatMap fun pick =>
    if r.used.testBit pick.2 then [] else Operator.all.filterMap (r.extend? pick)

end Reached

structure Level where
  seen : Std.HashSet Key
  found : List Reached

def Level.push (level : Level) (r : Reached) : Level :=
  if level.seen.contains r.key then level
  else ⟨level.seen.insert r.key, r :: level.found⟩

/-- The first chain for each key, in the order of the list. -/
def firstOfKey (rs : List Reached) : List Reached :=
  (rs.foldl Level.push ⟨∅, []⟩).found.reverse

def nextLevel (picks : List Pick) (level : List Reached) : List Reached :=
  firstOfKey (level.flatMap (Reached.successors picks))

def deepen (picks : List Pick) (target : Fraction) : Nat → List Reached → Option Reached
  | 0, _ => none
  | depth + 1, level =>
    let next := nextLevel picks level
    match next.find? (·.value == target) with
    | some r => some r
    | none => deepen picks target depth next

-- one bit of a word for each position
def maxNumbers : Nat := 64

/-- A shortest chain of two to `limit` of the numbers that has the value `target`. -/
def search? (numbers : List Int64) (target : Fraction) (limit : Nat) : Option Chain :=
  if numbers.length < 2 ∨ maxNumbers < numbers.length ∨ limit < 2 then none
  else
    let picks := numbers.zipIdx
    (deepen picks target (min limit numbers.length - 1) (picks.map Reached.ofPick)).map (·.chain)

end Chain

structure Solution where
  expression : String
  operands : List Int64
  deriving DecidableEq, Repr

def Chain.solution (chain : Chain) : Solution :=
  ⟨String.ofList chain.text, chain.operands⟩

def searchWithin (numbers : List Int64) (target : Fraction) (limit : Nat) : Option Solution :=
  (Chain.search? numbers target limit).map Chain.solution

def findSolution (numbers : List Int64) (target : Fraction) : Option Solution :=
  searchWithin numbers target numbers.length

def canReach (numbers : List Int64) (target : Fraction) : Bool :=
  (findSolution numbers target).isSome

end TargetQuiz

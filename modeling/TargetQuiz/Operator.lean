import TargetQuiz.Fraction.Basic

namespace TargetQuiz

inductive Operator where
  | add
  | sub
  | mul
  | div
  deriving DecidableEq, Repr

namespace Operator

/-- All operators, in the order in which a search tries them. -/
def all : List Operator := [add, sub, mul, div]

def symbol : Operator → Char
  | add => '+'
  | sub => '-'
  | mul => '*'
  | div => '/'

def ofSymbol? : Char → Option Operator
  | '+' => some add
  | '-' => some sub
  | '*' => some mul
  | '/' => some div
  | _ => none

def precedence : Operator → Nat
  | add | sub => 1
  | mul | div => 2

def apply : Operator → Fraction → Fraction → Except ArithmeticError Fraction
  | add => Fraction.add
  | sub => Fraction.sub
  | mul => Fraction.mul
  | div => Fraction.div

theorem mem_all (op : Operator) : op ∈ all := by cases op <;> decide

theorem ofSymbol?_eq_some_iff {c : Char} {op : Operator} :
    ofSymbol? c = some op ↔ op.symbol = c := by
  constructor
  · intro h
    unfold ofSymbol? at h
    split at h <;> cases h <;> rfl
  · rintro rfl
    cases op <;> rfl

end Operator
end TargetQuiz

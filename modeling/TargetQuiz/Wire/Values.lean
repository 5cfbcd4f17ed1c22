import TargetQuiz.Chain.Search
import TargetQuiz.Random.Generator
import TargetQuiz.Tier
import TargetQuiz.Wire.Basic

namespace TargetQuiz

instance : Wire Fraction where
  toJson f :=
    .object [("numerator", Wire.toJson f.num), ("denominator", Wire.toJson f.den)]
  ofJson? v := do
    match ← Wire.record? ["numerator", "denominator"] v with
    | [num, den] => (Fraction.ofWords (← Wire.required? num) (← Wire.required? den)).toOption
    | _ => none

instance : Wire Tier where
  toJson t := Wire.toJson t.level
  ofJson? v := do (Tier.ofExactLevel (← Wire.ofJson? v)).toOption

def Operator.name : Operator → String
  | .add => "Add"
  | .sub => "Sub"
  | .mul => "Mul"
  | .div => "Div"

def Operator.ofName? (name : String) : Option Operator := all.find? (·.name == name)

/-- An operator is its name; it may also be read from an object with that name as its only key and
nothing in it. -/
instance : Wire Operator where
  toJson op := .string op.name
  ofJson?
    | .string name => Operator.ofName? name
    | .object [(name, .null)] => Operator.ofName? name
    | _ => none

instance : Wire Generator where
  toJson g := .object [("state", Wire.toJson [g.first, g.second])]
  ofJson? v := do
    match ← Wire.record? ["state"] v with
    | [state] =>
      match ← Wire.required? state with
      | [first, second] => some ⟨first, second⟩
      | _ => none
    | _ => none

instance : Wire Solution where
  toJson s :=
    .object [("expression", Wire.toJson s.expression), ("operands", Wire.toJson s.operands)]
  ofJson? v := do
    match ← Wire.record? ["expression", "operands"] v with
    | [expression, operands] => return ⟨← Wire.required? expression, ← Wire.required? operands⟩
    | _ => none

end TargetQuiz

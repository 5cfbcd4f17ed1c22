import TargetQuiz.Proofs.FractionExact
import TargetQuiz.Proofs.WireRoundTrip
import TargetQuiz.Question.Basic

namespace TargetQuiz

instance : LawfulWire Fraction where
  wellFormed f := ⟨LawfulWire.wellFormed f.num, LawfulWire.wellFormed f.den, trivial⟩
  ofJson?_toJson f := by
    refine (Wire.bind_record?_zip ["numerator", "denominator"]
      [Wire.toJson f.num, Wire.toJson f.den] _ rfl (by decide)).trans ?_
    simp [Wire.required?_some, f.ofWords_parts, Except.toOption]

instance : LawfulWire Tier where
  wellFormed t := LawfulWire.wellFormed t.level
  ofJson?_toJson t := by
    change (Wire.ofJson? (Wire.toJson t.level) >>= fun level =>
      (Tier.ofExactLevel level).toOption) = some t
    rw [LawfulWire.ofJson?_toJson]
    change (Tier.ofExactLevel t.level).toOption = some t
    rw [Tier.ofExactLevel_level]
    rfl

theorem Operator.ofName?_name (op : Operator) : ofName? op.name = some op := by
  cases op <;> rfl

instance : LawfulWire Operator where
  wellFormed _ := trivial
  ofJson?_toJson op := op.ofName?_name

instance : LawfulWire Generator where
  wellFormed g := ⟨LawfulWire.wellFormed [g.first, g.second], trivial⟩
  ofJson?_toJson g := by
    refine (Wire.bind_record?_zip ["state"]
      [Wire.toJson [g.first, g.second]] _ rfl (by decide)).trans ?_
    simp [Wire.required?_some]

instance : LawfulWire Solution where
  wellFormed s := ⟨LawfulWire.wellFormed s.expression, LawfulWire.wellFormed s.operands, trivial⟩
  ofJson?_toJson s := by
    refine (Wire.bind_record?_zip ["expression", "operands"]
      [Wire.toJson s.expression, Wire.toJson s.operands] _ rfl (by decide)).trans ?_
    simp [Wire.required?_some]

instance : LawfulWire ClientView where
  wellFormed c := ⟨LawfulWire.wellFormed c.display, LawfulWire.wellFormed c.numbers, trivial⟩
  ofJson?_toJson c := by
    refine (Wire.bind_record?_zip ["display", "numbers"]
      [Wire.toJson c.display, Wire.toJson c.numbers] _ rfl (by decide)).trans ?_
    simp [Wire.required?_some]

theorem toJson_fraction_ne_null (f : Fraction) : Wire.toJson f ≠ .null := Json.noConfusion

theorem toJson_string_ne_null (s : String) : Wire.toJson s ≠ .null := Json.noConfusion

instance : LawfulWire Verdict where
  wellFormed v := ⟨LawfulWire.wellFormed v.accepted, Wire.wellFormed_option v.value,
    Wire.wellFormed_option v.reason, trivial⟩
  ofJson?_toJson v := by
    have hvalue := Wire.optional?_some toJson_fraction_ne_null v.value
    have hreason := Wire.optional?_some toJson_string_ne_null v.reason
    refine (Wire.bind_record?_zip ["accepted", "value", "reason"]
      [Wire.toJson v.accepted, Wire.toJson v.value, Wire.toJson v.reason]
      _ rfl (by decide)).trans ?_
    simp [Wire.required?_some, hvalue, hreason]

end TargetQuiz

import TargetQuiz.Proofs.Binary64Decimal
import TargetQuiz.Proofs.JsonRoundTrip
import TargetQuiz.Wire.Basic

/-! A wire form is lawful when what is written for a value is well-formed JSON that reads back as
the value. That of a binary number need not be lawful, but it is never refused. -/
namespace TargetQuiz

namespace JsonNumber

theorem ofInt_wellFormed (z : Int) : (ofInt z).WellFormed where
  whole := by
    rcases Nat.eq_zero_or_pos z.natAbs with hzero | hpos
    · exact .inl (congrArg Numeral.ofNat hzero)
    · exact .inr ⟨Digits.ofNat _, Numeral.head?_ofNat hpos⟩
  fraction := nofun
  exponent := nofun

theorem int?_ofInt (z : Int) : (ofInt z).int? = some z := by
  simp only [int?, ofInt, Option.isSome_none, Bool.or_self, Bool.false_eq_true, if_false,
    Numeral.value_ofNat, decide_eq_true_eq]
  split
  · rw [if_neg (by omega), Option.some.injEq]
    omega
  · rw [Option.some.injEq]
    omega

theorem layOut_wellFormed (negative : Bool) {digits : Nat} (exponent : Int) (hpos : 0 < digits) :
    (layOut negative (Numeral.ofNat digits) exponent).WellFormed := by
  have hdigits := Digits.ofNat digits
  have hhead := Numeral.head?_ofNat hpos
  generalize Numeral.ofNat digits = cs at *
  have hplaces : positionalDigits = 16 := rfl
  unfold layOut
  dsimp only
  split
  case isTrue hinteger =>
    refine ⟨.inr ⟨hdigits.append_zeros, ?_⟩, ?_, nofun⟩
    · obtain ⟨c, more, rfl⟩ := List.exists_cons_of_ne_nil hdigits.1
      simpa using hhead
    · rintro _ ⟨⟩
      exact Digits.ofNat 0
  case isFalse hpoint =>
  split
  case isTrue hinside =>
    refine ⟨.inr ⟨hdigits.take (by omega), ?_⟩, ?_, nofun⟩
    · rwa [List.head?_take, if_neg (by omega)]
    · rintro _ ⟨⟩
      exact hdigits.drop (by omega)
  case isFalse houtside =>
  split
  case isTrue hbelow =>
    refine ⟨.inl rfl, ?_, nofun⟩
    rintro _ ⟨⟩
    exact hdigits.zeros_append
  -- the scientific layout; a single digit has no fraction part
  case isFalse habove =>
    refine ⟨.inr ⟨hdigits.take Nat.one_pos, ?_⟩, ?_, ?_⟩
    · rwa [List.head?_take, if_neg Nat.one_ne_zero]
    · intro more hmore
      rw [Option.mem_def, Option.ite_none_left_eq_some, Option.some.injEq] at hmore
      obtain ⟨hne, rfl⟩ := hmore
      refine hdigits.drop ?_
      rw [List.isEmpty_iff, List.drop_eq_nil_iff] at hne
      omega
    · rintro _ ⟨⟩
      exact Digits.padded _ _

theorem ofBinary64_wellFormed (x : Binary64) : (ofBinary64 x).WellFormed := by
  rcases Binary64.shortest_between x.magnitude with hzero | ⟨hpos, -⟩
  · rw [ofBinary64, hzero]
    refine ⟨.inl rfl, ?_, nofun⟩
    rintro _ ⟨⟩
    exact Digits.ofNat 0
  · exact layOut_wellFormed _ _ hpos

end JsonNumber

/-- Every value is written as well-formed JSON that reads back as the value. -/
class LawfulWire (α : Type) [Wire α] : Prop where
  wellFormed : ∀ a : α, (Wire.toJson a).WellFormed
  ofJson?_toJson : ∀ a : α, Wire.ofJson? (Wire.toJson a) = some a

namespace Wire

variable {α : Type} [Wire α]

theorem ofJson?_option {v : Json} (hv : v ≠ .null) :
    (ofJson? v : Option (Option α)) = (ofJson? v).map some := by
  cases v with
  | null => exact absurd rfl hv
  | _ => rfl

variable [LawfulWire α]

theorem required?_some (a : α) : required? (some (toJson a)) = some a :=
  LawfulWire.ofJson?_toJson a

theorem read?_write (a : α) : read? (write a) = some a := by
  rw [read?, write, Json.parse_render (LawfulWire.wellFormed a)]
  exact LawfulWire.ofJson?_toJson a

instance : LawfulWire Int64 where
  wellFormed n := JsonNumber.ofInt_wellFormed n.toInt
  ofJson?_toJson n := by
    change (JsonNumber.ofInt n.toInt).int?.bind Word.int64? = some n
    rw [JsonNumber.int?_ofInt]
    exact Word.int64?_toInt n

instance : LawfulWire UInt64 where
  wellFormed n := JsonNumber.ofInt_wellFormed n.toNat
  ofJson?_toJson n := by
    change (JsonNumber.ofInt n.toNat).uint64? = some n
    simp [JsonNumber.uint64?, JsonNumber.int?_ofInt, Word.uint64?_toNat]

instance : LawfulWire UInt8 where
  wellFormed n := JsonNumber.ofInt_wellFormed n.toNat
  ofJson?_toJson n := by
    change (JsonNumber.ofInt n.toNat).uint8? = some n
    simp [JsonNumber.uint8?, JsonNumber.int?_ofInt, Word.uint8?_eq_some_iff]

instance : LawfulWire Bool where
  wellFormed _ := trivial
  ofJson?_toJson _ := rfl

instance : LawfulWire String where
  wellFormed _ := trivial
  ofJson?_toJson _ := rfl

theorem wellFormedItems_map (as : List α) : Json.WellFormedItems (as.map toJson) := by
  induction as with
  | nil => trivial
  | cons a as ih => exact ⟨LawfulWire.wellFormed a, ih⟩

instance : LawfulWire (List α) where
  wellFormed as := wellFormedItems_map as
  ofJson?_toJson as := by
    change (as.map toJson).mapM ofJson? = some as
    induction as with
    | nil => rfl
    | cons a as ih => simp [LawfulWire.ofJson?_toJson, ih]

theorem wellFormed_option (a? : Option α) : (toJson a?).WellFormed := by
  cases a? with
  | none => trivial
  | some a => exact LawfulWire.wellFormed a

/-- Null stands for an absent value, so no value may be written as null. -/
theorem optional?_some (hne : ∀ a : α, toJson a ≠ .null) (a? : Option α) :
    optional? (some (toJson a?)) = some a? := by
  cases a? with
  | none => rfl
  | some a =>
    change ofJson? (toJson a) = some (some a)
    rw [ofJson?_option (hne a), LawfulWire.ofJson?_toJson]
    rfl

def lookUp? (fields : List (String × Json)) (name : String) : Option (Option Json) :=
  match fields.filter (·.1 == name) with
  | [] => some none
  | [(_, v)] => some (some v)
  | _ => none

theorem lookUp?_eq {before after : List (String × Json)} {name : String} (v : Json)
    (hbefore : ∀ field ∈ before, field.1 ≠ name) (hafter : ∀ field ∈ after, field.1 ≠ name) :
    lookUp? (before ++ (name, v) :: after) name = some (some v) := by
  have hnone : ∀ fields : List (String × Json), (∀ field ∈ fields, field.1 ≠ name) →
      fields.filter (·.1 == name) = [] := by
    intro fields h
    simpa using h
  rw [lookUp?, List.filter_append, hnone before hbefore, List.filter_cons,
    if_pos (beq_self_eq_true name), hnone after hafter]
  rfl

theorem mapM_lookUp? (before : List (String × Json)) {names : List String} {values : List Json}
    (hlength : names.length = values.length) (hnodup : names.Nodup)
    (hbefore : ∀ name ∈ names, ∀ field ∈ before, field.1 ≠ name) :
    names.mapM (lookUp? (before ++ names.zip values)) = some (values.map some) := by
  induction names generalizing before values with
  | nil =>
    rw [List.eq_nil_of_length_eq_zero hlength.symm]
    rfl
  | cons name names ih =>
    cases values with
    | nil => simp at hlength
    | cons v values =>
      rw [List.nodup_cons] at hnodup
      have hafter : ∀ field ∈ names.zip values, field.1 ≠ name := by
        rintro field hfield rfl
        exact hnodup.1 (List.of_mem_zip hfield).1
      have hrest := ih (before ++ [(name, v)]) (Nat.succ.inj hlength) hnodup.2 (by
        intro other hother field hfield
        rcases List.mem_append.1 hfield with hold | hnew
        · exact hbefore other (List.mem_cons_of_mem _ hother) field hold
        · rw [List.mem_singleton.1 hnew]
          rintro rfl
          exact hnodup.1 hother)
      rw [List.append_assoc, List.singleton_append] at hrest
      rw [List.zip_cons_cons, List.mapM_cons, lookUp?_eq v (hbefore name (by simp)) hafter, hrest]
      rfl

/-- The fields of a record are found in an object of just these fields, and reading goes on with
them. -/
theorem bind_record?_zip {β : Type} (names : List String) (values : List Json)
    (read : List (Option Json) → Option β) (hlength : names.length = values.length)
    (hnodup : names.Nodup) :
    (record? names (.object (names.zip values))).bind read = read (values.map some) := by
  have hfields : record? names (.object (names.zip values)) = some (values.map some) :=
    mapM_lookUp? [] hlength hnodup (by simp)
  rw [hfields, Option.bind_some]

end Wire
end TargetQuiz

import TargetQuiz.Proofs.FractionDoubleWords
import TargetQuiz.Proofs.TransportRoundTrip
import TargetQuiz.Proofs.WireValues

/-! What is read from any text. A fraction is read as two words that promise nothing and then
reduced, so it is the quotient of the integers that the text gives. -/
namespace TargetQuiz

namespace Json

inductive IsInteger : Json → Int → Prop
  | plain (digits : List Char) :
      IsInteger (.number ⟨false, digits, none, none⟩) (Numeral.value digits)
  | minus {digits : List Char} (h : Numeral.value digits ≠ 0) :
      IsInteger (.number ⟨true, digits, none, none⟩) (-Numeral.value digits)

/-- What fields have for a name: nothing, or the value of the only field with this name. -/
inductive Named (fields : List (String × Json)) (name : String) : Option Json → Prop
  | missing (h : ∀ field ∈ fields, field.1 ≠ name) : Named fields name none
  | once {before after : List (String × Json)} {v : Json}
      (hfields : fields = before ++ (name, v) :: after)
      (hbefore : ∀ field ∈ before, field.1 ≠ name) (hafter : ∀ field ∈ after, field.1 ≠ name) :
      Named fields name (some v)

/-- What a value has for the fields of a record: an object has them by name, and an array has
these and no others, in their order. -/
inductive Record (names : List String) : Json → List (Option Json) → Prop
  | object {fields : List (String × Json)} {values : List (Option Json)}
      (h : List.Forall₂ (Named fields) names values) : Record names (.object fields) values
  | array {items : List Json} (h : items.length = names.length) :
      Record names (.array items) (items.map some)

inductive Absentable {α : Type} (denotes : Json → α → Prop) : Option Json → Option α → Prop
  | missing : Absentable denotes none none
  | null : Absentable denotes (some .null) none
  | present {v : Json} {a : α} (h : denotes v a) : Absentable denotes (some v) (some a)

end Json

namespace Fraction

def GivenBy (v : Json) (n d : Int) : Prop :=
  ∃ num den, Json.Record ["numerator", "denominator"] v [some num, some den] ∧
    num.IsInteger n ∧ den.IsInteger d

structure IsQuotient (f : Fraction) (n d : Int) : Prop where
  divisor : d ≠ 0
  den_pos : 0 < f.den.toInt
  reduced : f.num.toInt.natAbs.Coprime f.den.toInt.natAbs
  exact : (f.num.toInt : ℚ) / f.den.toInt = n / d

/-- The value gives two words, and the fraction is their quotient. -/
def ReadFrom (v : Json) (f : Fraction) : Prop :=
  ∃ n d : Int64, GivenBy v n.toInt d.toInt ∧ f.IsQuotient n.toInt d.toInt

/-- The integers have no quotient in words: the divisor is zero, or one of them is no word itself,
or the lowest terms are none. -/
def Refused (n d : Int) : Prop :=
  d = 0 ∨ (∀ w : Int64, w.toInt ≠ n) ∨ (∀ w : Int64, w.toInt ≠ d) ∨ ¬Representable (n / d)

end Fraction

/-- The value gives an acceptance and, unless they are absent, a fraction and a reason. -/
def Verdict.ReadFrom (v : Json) (verdict : Verdict) : Prop :=
  ∃ value? reason?,
    Json.Record ["accepted", "value", "reason"] v [some (.bool verdict.accepted), value?, reason?] ∧
      Json.Absentable Fraction.ReadFrom value? verdict.value ∧
      Json.Absentable (fun v s => v = .string s) reason? verdict.reason

/-! Integers. -/

theorem JsonNumber.int?_eq_some_iff {n : JsonNumber} {z : Int} :
    n.int? = some z ↔ (Json.number n).IsInteger z := by
  obtain ⟨negative, digits, fraction, exponent⟩ := n
  constructor
  · intro h
    unfold int? at h
    split at h
    · cases h
    · rename_i hplain
      simp only [Bool.or_eq_true, not_or, Bool.not_eq_true, Option.isSome_eq_false_iff,
        Option.isNone_iff_eq_none] at hplain
      obtain ⟨rfl, rfl⟩ := hplain
      cases negative with
      | false =>
        cases h
        exact .plain digits
      | true =>
        simp only [if_true, Option.ite_none_left_eq_some, Option.some.injEq] at h
        obtain ⟨hzero, rfl⟩ := h
        exact .minus hzero
  · intro h
    cases h with
    | plain => rfl
    | minus h => simp [int?, h]

theorem Json.IsInteger.unique {v : Json} {z z' : Int} (h : v.IsInteger z) (h' : v.IsInteger z') :
    z = z' := by
  cases h <;> cases h' <;> rfl

namespace Wire

theorem ofJson?_int64_iff {v : Json} {n : Int64} : ofJson? v = some n ↔ v.IsInteger n.toInt := by
  cases v with
  | number m =>
    change m.int?.bind Word.int64? = some n ↔ _
    simp [Option.bind_eq_some_iff, Word.int64?_eq_some_iff, ← JsonNumber.int?_eq_some_iff]
  | _ => exact ⟨nofun, nofun⟩

/-! Records. -/

theorem lookUp?_eq_some_iff {fields : List (String × Json)} {name : String} {v? : Option Json} :
    lookUp? fields name = some v? ↔ Json.Named fields name v? := by
  constructor
  · intro h
    unfold lookUp? at h
    split at h
    · rename_i hnone
      cases h
      exact .missing (by simpa using hnone)
    · rename_i key v hone
      cases h
      obtain ⟨before, after, hfields, hbefore, hkey, hafter⟩ := List.filter_eq_cons_iff.1 hone
      obtain rfl := beq_iff_eq.1 hkey
      exact .once hfields (by simpa using hbefore) (by simpa using hafter)
    · cases h
  · intro h
    cases h with
    | missing h =>
      have hnone : fields.filter (·.1 == name) = [] := by simpa using h
      rw [lookUp?, hnone]
    | once hfields hbefore hafter => rw [hfields, lookUp?_eq _ hbefore hafter]

theorem mapM_eq_some_iff {α β : Type} {f : α → Option β} {as : List α} {bs : List β} :
    as.mapM f = some bs ↔ List.Forall₂ (fun a b => f a = some b) as bs := by
  induction as generalizing bs with
  | nil => simp [eq_comm]
  | cons a as ih =>
    cases bs with
    | nil => simp [Option.bind_eq_some_iff]
    | cons b bs => simp [← ih, Option.bind_eq_some_iff]

theorem record?_eq_some_iff {names : List String} {v : Json} {values : List (Option Json)} :
    record? names v = some values ↔ Json.Record names v values := by
  cases v with
  | object fields =>
    change names.mapM (lookUp? fields) = some values ↔ _
    simp only [mapM_eq_some_iff, lookUp?_eq_some_iff]
    constructor
    · exact .object
    · rintro ⟨h⟩
      exact h
  | array items =>
    simp only [record?, Option.ite_none_right_eq_some, Option.some.injEq]
    constructor
    · rintro ⟨hlength, rfl⟩
      exact .array hlength
    · rintro (_ | ⟨hlength⟩)
      exact ⟨hlength, rfl⟩
  | _ => exact ⟨nofun, nofun⟩

theorem record_unique {names : List String} {v : Json} {values values' : List (Option Json)}
    (h : Json.Record names v values) (h' : Json.Record names v values') : values = values' := by
  rw [← record?_eq_some_iff] at h h'
  exact Option.some.inj (h.symm.trans h')

theorem required?_eq_some_iff {α : Type} [Wire α] {v? : Option Json} {a : α} :
    required? v? = some a ↔ ∃ v, v? = some v ∧ ofJson? v = some a := by
  simp [required?, Option.bind_eq_some_iff]

/-- Null stands for an absent value, so it must not denote any. -/
theorem optional?_eq_some_iff {α : Type} [Wire α] {denotes : Json → α → Prop}
    (hread : ∀ v a, ofJson? v = some a ↔ denotes v a) (hnull : ∀ a, ¬denotes .null a)
    {v? : Option Json} {a? : Option α} :
    optional? v? = some a? ↔ Json.Absentable denotes v? a? := by
  constructor
  · intro h
    cases v? with
    | none =>
      cases h
      exact .missing
    | some v =>
      by_cases hv : v = .null
      · subst hv
        cases h
        exact .null
      · change ofJson? v = some a? at h
        rw [ofJson?_option hv, Option.map_eq_some_iff] at h
        obtain ⟨a, ha, rfl⟩ := h
        exact .present ((hread v a).1 ha)
  · intro h
    cases h with
    | missing => rfl
    | null => rfl
    | @present v a h =>
      have hv : v ≠ .null := by
        rintro rfl
        exact hnull a h
      change ofJson? v = some (some a)
      rw [ofJson?_option hv, (hread v a).2 h]
      rfl

theorem ofJson?_bool_iff {v : Json} {b : Bool} : ofJson? v = some b ↔ v = .bool b := by
  cases v with
  | bool b' => simp [ofJson?]
  | _ => exact ⟨nofun, nofun⟩

theorem ofJson?_string_iff {v : Json} {s : String} : ofJson? v = some s ↔ v = .string s := by
  cases v with
  | string s' => simp [ofJson?]
  | _ => exact ⟨nofun, nofun⟩

end Wire

/-! Fractions. -/

namespace Fraction

theorem isQuotient_iff {f : Fraction} {n d : Int} :
    f.IsQuotient n d ↔ d ≠ 0 ∧ f.toRat = n / d := by
  rw [toRat_eq_div]
  constructor
  · intro h
    exact ⟨h.divisor, h.exact⟩
  · rintro ⟨hd, hexact⟩
    exact ⟨hd, f.den_pos, f.reduced, hexact⟩

theorem GivenBy.unique {v : Json} {n d n' d' : Int} (h : GivenBy v n d) (h' : GivenBy v n' d') :
    n = n' ∧ d = d' := by
  obtain ⟨num, den, hfields, hn, hd⟩ := h
  obtain ⟨num', den', hfields', hn', hd'⟩ := h'
  cases Wire.record_unique hfields hfields'
  exact ⟨hn.unique hn', hd.unique hd'⟩

theorem ofWords_eq_ok_iff {n d : Int64} {f : Fraction} :
    ofWords n d = .ok f ↔ f.IsQuotient n.toInt d.toInt := by
  rw [ofWords, ofQuotient_eq_ok_iff, isQuotient_iff]

theorem ofJson?_eq_some_iff {v : Json} {f : Fraction} :
    Wire.ofJson? v = some f ↔ ReadFrom v f := by
  change (Wire.record? ["numerator", "denominator"] v).bind _ = some f ↔ _
  simp only [Option.bind_eq_some_iff, Wire.record?_eq_some_iff]
  constructor
  · rintro ⟨values, hfields, hread⟩
    split at hread
    · rename_i num? den?
      simp only [Option.bind_eq_bind, Option.bind_eq_some_iff, Wire.required?_eq_some_iff,
        Wire.ofJson?_int64_iff, toOption_eq_some_iff, ofWords_eq_ok_iff] at hread
      obtain ⟨n, ⟨num, rfl, hn⟩, d, ⟨den, rfl, hd⟩, hquotient⟩ := hread
      exact ⟨n, d, ⟨num, den, hfields, hn, hd⟩, hquotient⟩
    · cases hread
  · rintro ⟨n, d, ⟨num, den, hfields, hn, hd⟩, hquotient⟩
    refine ⟨_, hfields, ?_⟩
    simp only [Option.bind_eq_bind, Option.bind_eq_some_iff, Wire.required?_eq_some_iff,
      Wire.ofJson?_int64_iff, toOption_eq_some_iff, ofWords_eq_ok_iff]
    exact ⟨n, ⟨num, rfl, hn⟩, d, ⟨den, rfl, hd⟩, hquotient⟩

theorem no_ofJson?_iff {v : Json} {n d : Int} (h : GivenBy v n d) :
    Wire.ofJson? v = (none : Option Fraction) ↔ Refused n d := by
  rw [Option.eq_none_iff_forall_ne_some]
  simp only [ne_eq, ofJson?_eq_some_iff]
  constructor
  · intro hnone
    by_contra hgiven
    simp only [Refused, not_or, not_forall, not_not] at hgiven
    obtain ⟨hd, ⟨num, rfl⟩, ⟨den, rfl⟩, hrepresentable⟩ := hgiven
    obtain ⟨f, hf⟩ := hrepresentable.exists_toRat
    exact hnone f ⟨num, den, h, isQuotient_iff.2 ⟨hd, hf⟩⟩
  · rintro hrefused f ⟨num, den, hgiven, hquotient⟩
    obtain ⟨rfl, rfl⟩ := h.unique hgiven
    obtain ⟨hd, hf⟩ := isQuotient_iff.1 hquotient
    rcases hrefused with hzero | hnum | hden | hterms
    · exact hd hzero
    · exact hnum num rfl
    · exact hden den rfl
    · rw [← hf] at hterms
      exact hterms f.representable_toRat

theorem not_givenBy_null (n d : Int) : ¬GivenBy .null n d := by
  rintro ⟨_, _, hfields, -⟩
  cases hfields

theorem not_readFrom_null (f : Fraction) : ¬ReadFrom .null f := by
  rintro ⟨_, _, hgiven, -⟩
  exact not_givenBy_null _ _ hgiven

end Fraction

/-! Verdicts. -/

namespace Verdict

theorem ofJson?_eq_some_iff {v : Json} {verdict : Verdict} :
    Wire.ofJson? v = some verdict ↔ ReadFrom v verdict := by
  have hvalue {v? : Option Json} {f? : Option Fraction} :
      Wire.optional? v? = some f? ↔ Json.Absentable Fraction.ReadFrom v? f? :=
    Wire.optional?_eq_some_iff (fun _ _ => Fraction.ofJson?_eq_some_iff) Fraction.not_readFrom_null
  have hreason {v? : Option Json} {s? : Option String} :
      Wire.optional? v? = some s? ↔ Json.Absentable (fun v s => v = .string s) v? s? :=
    Wire.optional?_eq_some_iff (fun _ _ => Wire.ofJson?_string_iff) nofun
  change (Wire.record? ["accepted", "value", "reason"] v).bind _ = some verdict ↔ _
  simp only [Option.bind_eq_some_iff, Wire.record?_eq_some_iff]
  constructor
  · rintro ⟨values, hfields, hread⟩
    split at hread
    · rename_i accepted? value? reason?
      simp only [Option.bind_eq_bind, Option.bind_eq_some_iff, Wire.required?_eq_some_iff,
        Wire.ofJson?_bool_iff, hvalue, hreason, Option.pure_def, Option.some.injEq] at hread
      obtain ⟨accepted, ⟨_, rfl, rfl⟩, value, hvalue, reason, hreason, rfl⟩ := hread
      exact ⟨value?, reason?, hfields, hvalue, hreason⟩
    · cases hread
  · rintro ⟨value?, reason?, hfields, hvalue', hreason'⟩
    refine ⟨_, hfields, ?_⟩
    simp only [Option.bind_eq_bind, Option.bind_eq_some_iff, Wire.required?_eq_some_iff,
      Wire.ofJson?_bool_iff, hvalue, hreason, Option.pure_def, Option.some.injEq]
    exact ⟨_, ⟨_, rfl, rfl⟩, _, hvalue', _, hreason', rfl⟩

theorem no_ofJson? {v value : Json} {accepted? reason? : Option Json} {n d : Int}
    (hfields : Json.Record ["accepted", "value", "reason"] v [accepted?, some value, reason?])
    (hgiven : Fraction.GivenBy value n d) (hrefused : Fraction.Refused n d) :
    Wire.ofJson? v = (none : Option Verdict) := by
  rw [Option.eq_none_iff_forall_ne_some]
  intro verdict hread
  obtain ⟨value?, _, hfields', hvalue, -⟩ := ofJson?_eq_some_iff.1 hread
  cases Wire.record_unique hfields hfields'
  generalize verdict.value = f? at hvalue
  cases hvalue with
  | null => exact Fraction.not_givenBy_null _ _ hgiven
  | present hf =>
    rw [← Fraction.ofJson?_eq_some_iff, (Fraction.no_ofJson?_iff hgiven).2 hrefused] at hf
    cases hf

end Verdict

namespace Wire

/-- What is written for any value of the type reads back as the value. -/
def RoundTrips (α : Type) [Wire α] : Prop := ∀ a : α, read? (write a) = some a

variable {α : Type} [Wire α] {s : String}

theorem read?_eq_some_iff {a : α} :
    read? s = some a ↔ ∃ v, Json.parse s = some v ∧ ofJson? v = some a :=
  Option.bind_eq_some_iff

theorem read?_of_parse {v : Json} (h : Json.parse s = some v) :
    (read? s : Option α) = ofJson? v := by
  rw [read?, h, Option.bind_some]

/-- Every value reads back from its text. A fraction is read from a text, alone or in a verdict,
exactly when the text gives two words for it, and it is then their quotient in lowest terms;
integers without such a quotient are refused. -/
theorem values_round_trip :
    (RoundTrips Fraction ∧ RoundTrips Tier ∧ RoundTrips Operator ∧ RoundTrips Generator ∧
      RoundTrips Solution ∧ RoundTrips Verdict ∧ RoundTrips ClientView ∧
      RoundTrips TargetPayload) ∧
    (∀ s f, read? s = some f ↔ ∃ v, Json.parse s = some v ∧ Fraction.ReadFrom v f) ∧
    (∀ s verdict, read? s = some verdict ↔
      ∃ v, Json.parse s = some v ∧ Verdict.ReadFrom v verdict) ∧
    (∀ s v n d, Json.parse s = some v → Fraction.GivenBy v n d →
      (read? s = (none : Option Fraction) ↔ Fraction.Refused n d)) ∧
    ∀ s v accepted? value reason? n d, Json.parse s = some v →
      Json.Record ["accepted", "value", "reason"] v [accepted?, some value, reason?] →
      Fraction.GivenBy value n d → Fraction.Refused n d →
      read? s = (none : Option Verdict) := by
  refine ⟨⟨read?_write, read?_write, read?_write, read?_write, read?_write, read?_write,
    read?_write, read?_write⟩, ?_, ?_, ?_, ?_⟩
  · intro s f
    simp only [read?_eq_some_iff, Fraction.ofJson?_eq_some_iff]
  · intro s verdict
    simp only [read?_eq_some_iff, Verdict.ofJson?_eq_some_iff]
  · intro s v n d hparse hgiven
    rw [read?_of_parse hparse]
    exact Fraction.no_ofJson?_iff hgiven
  · intro s v accepted? value reason? n d hparse hfields hgiven hrefused
    rw [read?_of_parse hparse]
    exact Verdict.no_ofJson? hfields hgiven hrefused

def words (n d : Int64) : Json := .array [toJson n, toJson d]

theorem words_wellFormed (n d : Int64) : (words n d).WellFormed :=
  ⟨LawfulWire.wellFormed n, LawfulWire.wellFormed d, trivial⟩

theorem givenBy_words (n d : Int64) : Fraction.GivenBy (words n d) n.toInt d.toInt :=
  ⟨_, _, .array rfl, ofJson?_int64_iff.1 (LawfulWire.ofJson?_toJson n),
    ofJson?_int64_iff.1 (LawfulWire.ofJson?_toJson d)⟩

theorem values_round_trip_words :
    read? (words 6 (-4)).render = some (⟨-3, 2, by decide, by decide⟩ : Fraction) ∧
      read? (words 7 0).render = (none : Option Fraction) ∧
      read? (Json.array [.bool true, words 7 0, .null]).render = (none : Option Verdict) := by
  obtain ⟨-, hfraction, -, hnone, hnoVerdict⟩ := values_round_trip
  have hquotient : Fraction.IsQuotient ⟨-3, 2, by decide, by decide⟩ (6 : Int64).toInt
      (-4 : Int64).toInt := Fraction.ofWords_eq_ok_iff.1 (by decide +kernel)
  have hverdict : (Json.array [.bool true, words 7 0, .null]).WellFormed :=
    ⟨trivial, words_wellFormed 7 0, trivial, trivial⟩
  refine ⟨(hfraction _ _).2 ⟨_, Json.parse_render (words_wellFormed 6 (-4)), 6, -4,
    givenBy_words 6 (-4), hquotient⟩, ?_, ?_⟩
  · exact (hnone _ _ _ _ (Json.parse_render (words_wellFormed 7 0)) (givenBy_words 7 0)).2
      (.inl rfl)
  · exact hnoVerdict _ _ _ _ _ _ _ (Json.parse_render hverdict) (.array rfl) (givenBy_words 7 0)
      (.inl rfl)

end Wire
end TargetQuiz

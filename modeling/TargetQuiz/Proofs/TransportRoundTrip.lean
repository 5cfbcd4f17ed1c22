import TargetQuiz.Proofs.FractionExact
import TargetQuiz.Proofs.FractionText
import TargetQuiz.Proofs.Outcome
import TargetQuiz.Proofs.WireRoundTrip
import TargetQuiz.Question.Basic

/-! The display of a payload may have separators in it, and the answer may begin or end with parts
of one: cut at the last one, the text is either cut where it was joined or has no payload before it.
-/
namespace TargetQuiz

instance : LawfulWire FractionParts where
  wellFormed p := ⟨LawfulWire.wellFormed p.num, LawfulWire.wellFormed p.den, trivial⟩
  ofJson?_toJson p := by
    refine (Wire.bind_record?_zip ["num", "den"]
      [Wire.toJson p.num, Wire.toJson p.den] _ rfl (by decide)).trans ?_
    simp [Wire.required?_some]

instance : LawfulWire TargetPayload where
  wellFormed t := ⟨LawfulWire.wellFormed t.numerator, LawfulWire.wellFormed t.denominator,
    LawfulWire.wellFormed t.whole, LawfulWire.wellFormed t.fraction, trivial⟩
  ofJson?_toJson t := by
    refine (Wire.bind_record?_zip ["numerator", "denominator", "whole", "fraction"]
      [Wire.toJson t.numerator, Wire.toJson t.denominator, Wire.toJson t.whole,
        Wire.toJson t.fraction] _ rfl (by decide)).trans ?_
    simp [Wire.required?_some]

theorem TargetPayload.toFraction_ofFraction (f : Fraction) :
    (ofFraction f).toFraction = .ok f := f.ofWords_parts

namespace QuestionPayload

theorem toJson_wellFormed (p : QuestionPayload) : (Wire.toJson p).WellFormed := by
  have happrox : (Wire.toJson p.approx).WellFormed := by
    change (if p.approx.isFinite then Json.number (.ofBinary64 p.approx) else .null).WellFormed
    split
    · exact JsonNumber.ofBinary64_wellFormed p.approx
    · trivial
  exact ⟨LawfulWire.wellFormed p.target, LawfulWire.wellFormed p.display, happrox,
    LawfulWire.wellFormed p.numbers, trivial⟩

/-- A payload reads back with all it had but its approximation, which may be rounded again. -/
theorem exists_ofJson?_toJson (p : QuestionPayload) (h : p.approx.isFinite = true) :
    ∃ approx, Wire.ofJson? (Wire.toJson p) = some { p with approx } := by
  obtain ⟨approx, happrox⟩ := Option.isSome_iff_exists.1
    (JsonNumber.isSome_binary64?_ofBinary64 p.approx h)
  have hwritten : Wire.toJson p.approx = .number (.ofBinary64 p.approx) := if_pos h
  have hread : Wire.required? (some (Wire.toJson p.approx)) = some approx := by
    rw [hwritten]
    exact happrox
  refine ⟨approx, (Wire.bind_record?_zip ["target", "display", "approx", "numbers"]
    [Wire.toJson p.target, Wire.toJson p.display, Wire.toJson p.approx, Wire.toJson p.numbers]
    _ rfl (by decide)).trans ?_⟩
  simp [Wire.required?_some, hread]

end QuestionPayload

namespace Question

theorem cutReversed_cons {c : Char} {cs : List Char} (h : c = '@' → cs.head? ≠ some '@') :
    cutReversed (c :: cs) =
      (cutReversed cs).map fun (before, after) => (c :: before, after) := by
  rw [cutReversed]
  rintro rest hc rfl
  exact h hc rfl

theorem cutReversed_of_not_mem {before : List Char} (after : List Char) (h : '@' ∉ before) :
    cutReversed (before ++ '@' :: '@' :: after) = some (before, after) := by
  induction before with
  | nil => rfl
  | cons c before ih =>
    rw [List.mem_cons, not_or] at h
    rw [List.cons_append, cutReversed_cons fun hc => absurd hc.symm h.1, ih h.2]
    rfl

/-- A text is cut at a given separator, or so late that some of the separator is left over. -/
theorem cutReversed_append (before after : List Char) : ∃ found rest,
    cutReversed (before ++ '@' :: '@' :: after) = some (found, rest) ∧
      (found = before ∧ rest = after ∨ ∃ more, rest = more ++ '@' :: after) := by
  induction before with
  | nil => exact ⟨[], after, rfl, .inl ⟨rfl, rfl⟩⟩
  | cons c before ih =>
    by_cases hcut : c = '@' ∧ (before ++ '@' :: '@' :: after).head? = some '@'
    · obtain ⟨rfl, hhead⟩ := hcut
      cases before with
      | nil => exact ⟨[], '@' :: after, rfl, .inr ⟨[], rfl⟩⟩
      | cons d before =>
        rw [List.cons_append, List.head?_cons, Option.some.injEq] at hhead
        subst hhead
        exact ⟨[], before ++ '@' :: '@' :: after, rfl, .inr ⟨before ++ ['@'], by simp⟩⟩
    · obtain ⟨found, rest, hfound, hrest⟩ := ih
      refine ⟨c :: found, rest, ?_, hrest.imp_left fun h => ⟨congrArg _ h.1, h.2⟩⟩
      rw [List.cons_append, cutReversed_cons fun hc hhead => hcut ⟨hc, hhead⟩, hfound]
      rfl

theorem cutAtLast_of_not_mem (json : List Char) {answer : List Char} (h : '@' ∉ answer) :
    cutAtLast (json ++ '@' :: '@' :: answer) = some (json, answer) := by
  have hreverse : '@' ∉ answer.reverse := by simpa using h
  have hcut := cutReversed_of_not_mem json.reverse hreverse
  simp [cutAtLast, hcut]

theorem cutAtLast_append (json answer : List Char) : ∃ found rest,
    cutAtLast (json ++ '@' :: '@' :: answer) = some (found, rest) ∧
      (found = json ∧ rest = answer ∨ ∃ more, found = json ++ '@' :: more) := by
  obtain ⟨found, rest, hcut, hcases⟩ := cutReversed_append answer.reverse json.reverse
  refine ⟨rest.reverse, found.reverse, by simp [cutAtLast, hcut], ?_⟩
  rcases hcases with ⟨rfl, rfl⟩ | ⟨more, rfl⟩
  · simp
  · exact .inr ⟨more.reverse, by simp⟩

section Transport

variable {p : QuestionPayload}

theorem toList_transport (p : QuestionPayload) (answer : String) :
    (Wire.write p ++ "@@" ++ answer).toList =
      (Wire.toJson p).text ++ '@' :: '@' :: answer.toList := by
  simp [Wire.write, Json.render]

theorem ofTransport_of_cut {raw : String} {answer : List Char} (h : p.approx.isFinite = true)
    (hcut : cutAtLast raw.toList = some ((Wire.toJson p).text, answer)) :
    ofTransport raw = (do
      let target ← p.target.toFraction.mapError .invalidTarget
      let parsed ← (Fraction.parse (String.ofList answer)).mapError .invalidAnswer
      if parsed = target then
        return ⟨target, p.numbers, p.display, target.canonical⟩
      else throw (.answerMismatch target.canonical (String.ofList (Text.trim answer)))) := by
  obtain ⟨approx, hread⟩ := p.exists_ofJson?_toJson h
  have hparse := Json.parseChars_text p.toJson_wellFormed
  simp only [ofTransport, hcut, hparse, Option.bind_some, hread]

/-- A text that is cut behind an at sign has no payload. -/
theorem ofTransport_of_late_cut {raw : String} {more answer : List Char}
    (hcut : cutAtLast raw.toList = some ((Wire.toJson p).text ++ '@' :: more, answer)) :
    ofTransport raw = .error .json := by
  have hparse := Json.parseChars_text_append p.toJson_wellFormed more (c := '@')
    (Json.stops_cons rfl (by decide) (by decide) (by decide)) rfl
  simp only [ofTransport, hcut, hparse, Option.bind_none]
  rfl

theorem ofTransport_eq_ok_iff_of_cut {raw : String} {answer : List Char} {q : Question}
    (h : p.approx.isFinite = true)
    (hcut : cutAtLast raw.toList = some ((Wire.toJson p).text, answer)) :
    ofTransport raw = .ok q ↔ ∃ t, p.target.toFraction = .ok t ∧
      Fraction.parse (String.ofList answer) = .ok t ∧
        q = ⟨t, p.numbers, p.display, t.canonical⟩ := by
  rw [ofTransport_of_cut h hcut, bind_eq_ok_iff]
  simp only [bind_eq_ok_iff, mapError_eq_ok_iff]
  constructor
  · rintro ⟨t, htarget, parsed, hparsed, hanswer⟩
    split at hanswer
    case isTrue heq =>
      subst heq
      exact ⟨parsed, htarget, hparsed, (pure_eq_ok_iff.1 hanswer).symm⟩
    case isFalse => cases hanswer
  · rintro ⟨t, htarget, hparsed, rfl⟩
    exact ⟨t, htarget, t, hparsed, if_pos rfl⟩

theorem ofTransport_write_eq_ok_iff (h : p.approx.isFinite = true) (answer : String)
    (q : Question) :
    ofTransport (Wire.write p ++ "@@" ++ answer) = .ok q ↔
      ∃ t, p.target.toFraction = .ok t ∧ Fraction.parse answer = .ok t ∧
        q = ⟨t, p.numbers, p.display, t.canonical⟩ := by
  obtain ⟨found, rest, hcut, hcases⟩ := cutAtLast_append (Wire.toJson p).text answer.toList
  rw [← toList_transport] at hcut
  rcases hcases with ⟨rfl, rfl⟩ | ⟨more, rfl⟩
  · have hiff := ofTransport_eq_ok_iff_of_cut (q := q) h hcut
    rwa [String.ofList_toList] at hiff
  · rw [ofTransport_of_late_cut hcut]
    refine ⟨nofun, ?_⟩
    rintro ⟨t, -, hparsed, -⟩
    -- an answer that is a fraction has no at sign, so the text is not cut late
    have hplain := cutAtLast_of_not_mem (Wire.toJson p).text (Fraction.not_mem_of_parse hparsed)
    rw [← toList_transport, hcut, Option.some.injEq, Prod.mk.injEq] at hplain
    have hlength := congrArg List.length hplain.1
    rw [List.length_append, List.length_cons] at hlength
    omega

theorem toTransport_eq (p : QuestionPayload) : p.toTransport =
    Wire.write p ++ "@@" ++ String.ofList (QuestionPayload.answerChars p.target) := by
  rw [← String.toList_inj, toList_transport]
  simp [QuestionPayload.toTransport, QuestionPayload.separator]

theorem ofTransport_toTransport (h : p.approx.isFinite = true) :
    ofTransport p.toTransport = (p.target.toFraction.mapError .invalidTarget).map fun t =>
      ⟨t, p.numbers, p.display, t.canonical⟩ := by
  have hparse : Fraction.parse (String.ofList (QuestionPayload.answerChars p.target)) =
      p.target.toFraction.mapError .arithmetic :=
    Fraction.parse_quotient p.target.numerator p.target.denominator
  cases htarget : p.target.toFraction with
  | ok t =>
    rw [toTransport_eq]
    rw [htarget] at hparse
    exact (ofTransport_write_eq_ok_iff h _ _).2 ⟨t, htarget, hparse, rfl⟩
  | error e =>
    have hplain : '@' ∉ QuestionPayload.answerChars p.target := by
      have hpart : ∀ n : Int64, '@' ∉ Numeral.ofInt n.toInt :=
        fun n => Numeral.not_mem_ofInt _ (by decide) rfl
      simp [QuestionPayload.answerChars, hpart]
    have hcut := cutAtLast_of_not_mem (Wire.toJson p).text hplain
    have htext := toList_transport p (String.ofList (QuestionPayload.answerChars p.target))
    rw [String.toList_ofList, ← toTransport_eq] at htext
    rw [← htext] at hcut
    rw [ofTransport_of_cut h hcut, htarget]
    rfl

end Transport

/-- What is read from the text of a payload with an answer behind it, and from the transport form
of the payload itself: the question that was sent, if the answer is the target, and nothing
otherwise. -/
theorem ofTransport_payload (p : QuestionPayload) (h : p.approx.isFinite = true) :
    (∀ (answer : String) (q : Question),
      ofTransport (Wire.write p ++ "@@" ++ answer) = .ok q ↔
        ∃ t, p.target.toFraction = .ok t ∧ Fraction.parse answer = .ok t ∧
          q = ⟨t, p.numbers, p.display, t.canonical⟩) ∧
      ofTransport p.toTransport = (p.target.toFraction.mapError .invalidTarget).map fun t =>
        ⟨t, p.numbers, p.display, t.canonical⟩ :=
  ⟨ofTransport_write_eq_ok_iff h, ofTransport_toTransport h⟩

def unreducedPayload : QuestionPayload :=
  ⟨⟨-6, -4, 1, ⟨1, 2⟩⟩, "@@ \"3/2\" \\ \x01 é", ⟨0x3FF8000000000000⟩, [3, 2]⟩

theorem ofTransport_payload_unreduced :
    unreducedPayload.approx.isFinite = true ∧
      ofTransport (Wire.write unreducedPayload ++ "@@" ++ " 9/6 ") =
        .ok ⟨⟨3, 2, by decide, by decide⟩, [3, 2], unreducedPayload.display, "3/2"⟩ ∧
      ofTransport unreducedPayload.toTransport =
        .ok ⟨⟨3, 2, by decide, by decide⟩, [3, 2], unreducedPayload.display, "3/2"⟩ := by
  have hfinite : unreducedPayload.approx.isFinite = true := by decide
  have htarget : unreducedPayload.target.toFraction = .ok ⟨3, 2, by decide, by decide⟩ := by
    decide +kernel
  have hanswer : Fraction.parse " 9/6 " = .ok ⟨3, 2, by decide, by decide⟩ := by decide +kernel
  have hcanonical : (⟨3, 2, by decide, by decide⟩ : Fraction).canonical = "3/2" := by
    decide +kernel
  obtain ⟨hread, hown⟩ := ofTransport_payload unreducedPayload hfinite
  refine ⟨hfinite, (hread _ _).2 ⟨_, htarget, hanswer, ?_⟩, ?_⟩
  · rw [hcanonical]
    rfl
  · rw [hown, htarget, ← hcanonical]
    rfl

end Question
end TargetQuiz

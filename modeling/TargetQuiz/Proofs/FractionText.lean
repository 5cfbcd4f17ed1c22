import TargetQuiz.Proofs.FractionExact
import TargetQuiz.Proofs.Numerals
import TargetQuiz.Fraction.Text

/-! The texts of fractions form a small grammar: the text of one word, or of two with a slash
between them, and blanks around the whole and each part. Reading accepts this grammar and nothing
else. -/
namespace TargetQuiz.Fraction

/-- The text of a fraction with no blanks around it, and what it stands for. -/
inductive Literal : List Char → Except ArithmeticError Fraction → Prop
  | whole {text : List Char} {n : Int64} (h : Numeral.Denotes text n.toInt) :
    Literal text (.ok (whole n))
  | quotient {before after num den : List Char} {n d : Int64} (hbefore : Text.Padded num before)
    (hnum : Numeral.Denotes num n.toInt) (hafter : Text.Padded den after)
    (hden : Numeral.Denotes den d.toInt) : Literal (before ++ '/' :: after) (ofWords n d)

def Denotes (s : String) (r : Except ArithmeticError Fraction) : Prop :=
  ∃ text, Text.Padded text s.toList ∧ Literal text r

theorem part?_eq_some_iff {cs : List Char} {n : Int64} :
    part? cs = some n ↔ ∃ text, Text.Padded text cs ∧ Numeral.Denotes text n.toInt := by
  have hread : part? cs = some n ↔ Numeral.Denotes (Text.trim cs) n.toInt := by
    simp [part?, Option.bind_eq_some_iff, Word.int64?_eq_some_iff, ← Numeral.int?_eq_some_iff]
  rw [hread]
  constructor
  · exact fun h => ⟨_, Text.padded_trim cs, h⟩
  · rintro ⟨text, hpadded, h⟩
    rwa [h.trim_eq hpadded]

/-- A part consists of blanks, digits and a sign. -/
theorem not_mem_of_part? {cs : List Char} {n : Int64} {c : Char} (h : part? cs = some n)
    (hblank : Text.isBlank c = false) (hdigit : c.isDigit = false) (hplus : c ≠ '+')
    (hminus : c ≠ '-') : c ∉ cs := by
  intro hmem
  obtain ⟨text, hpadded, hdenotes⟩ := part?_eq_some_iff.1 h
  rcases hpadded.mem c hmem with hc | hc
  · rw [hblank] at hc
    contradiction
  · rcases hdenotes.mem c hc with hc | hc | hc
    · exact hplus hc
    · exact hminus hc
    · rw [hdigit] at hc
      contradiction

theorem ne_slash_of_not_mem {cs : List Char} (h : '/' ∉ cs) :
    ∀ c ∈ cs, (decide (c ≠ '/')) = true := by
  intro c hc
  rw [decide_eq_true_eq]
  rintro rfl
  exact h hc

theorem splitAtSlash_of_not_mem {cs : List Char} (h : '/' ∉ cs) : splitAtSlash cs = (cs, none) := by
  rw [splitAtSlash, List.dropWhile_eq_nil_iff.2 (ne_slash_of_not_mem h)]

theorem splitAtSlash_append {before : List Char} (after : List Char) (h : '/' ∉ before) :
    splitAtSlash (before ++ '/' :: after) = (before, some after) := by
  have hplain := ne_slash_of_not_mem h
  unfold splitAtSlash
  rw [List.dropWhile_append_of_pos hplain, List.takeWhile_append_of_pos hplain]
  simp

theorem parse_of_part {s : String} {n : Int64} (h : part? s.toList = some n) :
    parse s = .ok (whole n) := by
  have hslash : '/' ∉ s.toList := not_mem_of_part? h rfl rfl (by decide) (by decide)
  rw [parse, splitAtSlash_of_not_mem hslash]
  simp only [h]

theorem parse_of_parts {s : String} {before after : List Char} {n d : Int64}
    (hs : s.toList = before ++ '/' :: after) (hn : part? before = some n)
    (hd : part? after = some d) : parse s = (ofWords n d).mapError .arithmetic := by
  have hslash : '/' ∉ before := not_mem_of_part? hn rfl rfl (by decide) (by decide)
  rw [parse, hs, splitAtSlash_append after hslash]
  simp only [hn, hd]

/-- Every text is read by one of the two rules, or it is faulty. -/
theorem parse_cases (s : String) :
    (∃ n, part? s.toList = some n) ∨
      (∃ before after n d, s.toList = before ++ '/' :: after ∧ part? before = some n ∧
        part? after = some d) ∨
      parse s = .error (.invalid s) := by
  by_cases hslash : '/' ∈ s.toList
  · obtain ⟨before, after, hs, hbefore⟩ := List.eq_append_cons_of_mem hslash
    cases hn : part? before with
    | none => exact .inr (.inr (by rw [parse, hs, splitAtSlash_append after hbefore]; simp only [hn]))
    | some n =>
      cases hd : part? after with
      | none =>
        exact .inr (.inr (by rw [parse, hs, splitAtSlash_append after hbefore]; simp only [hn, hd]))
      | some d => exact .inr (.inl ⟨before, after, n, d, hs, hn, hd⟩)
  · cases hn : part? s.toList with
    | none => exact .inr (.inr (by rw [parse, splitAtSlash_of_not_mem hslash]; simp only [hn]))
    | some n => exact .inl ⟨n, rfl⟩

theorem parse_of_denotes {s : String} {r : Except ArithmeticError Fraction} (h : Denotes s r) :
    parse s = r.mapError .arithmetic := by
  obtain ⟨text, ⟨front, back, hfront, hback, hs⟩, hliteral⟩ := h
  cases hliteral with
  | whole h => exact parse_of_part (part?_eq_some_iff.2 ⟨text, ⟨front, back, hfront, hback, hs⟩, h⟩)
  | quotient hbefore hnum hafter hden =>
    rename_i before after num den n d
    -- the blanks around the whole text are blanks around its outer ends as well
    have hparts : s.toList = (front ++ before) ++ '/' :: (after ++ back) := by simp [hs]
    refine parse_of_parts hparts ?_ ?_
    · exact part?_eq_some_iff.2 ⟨num, hbefore.prepend hfront, hnum⟩
    · exact part?_eq_some_iff.2 ⟨den, hafter.append hback, hden⟩

/-- A text that stands for nothing is faulty, and the complaint shows it as it was given. -/
theorem exists_denotes_or_invalid (s : String) :
    (∃ r, Denotes s r ∧ parse s = r.mapError .arithmetic) ∨ parse s = .error (.invalid s) := by
  rcases parse_cases s with ⟨n, hn⟩ | ⟨before, after, n, d, hs, hn, hd⟩ | hinvalid
  · obtain ⟨text, hpadded, h⟩ := part?_eq_some_iff.1 hn
    exact .inl ⟨_, ⟨text, hpadded, .whole h⟩, parse_of_part hn⟩
  · obtain ⟨num, hbefore, hnum⟩ := part?_eq_some_iff.1 hn
    obtain ⟨den, hafter, hden⟩ := part?_eq_some_iff.1 hd
    refine .inl ⟨_, ⟨s.toList, .refl _, ?_⟩, parse_of_parts hs hn hd⟩
    rw [hs]
    exact .quotient hbefore hnum hafter hden
  · exact .inr hinvalid

theorem parse_eq_iff {s : String} {r : Except ArithmeticError Fraction} :
    parse s = r.mapError .arithmetic ↔ Denotes s r := by
  refine ⟨fun h => ?_, parse_of_denotes⟩
  rcases exists_denotes_or_invalid s with ⟨r', hr', hparse⟩ | hinvalid
  · rw [hparse] at h
    have heq : r' = r := by cases r <;> cases r' <;> cases h <;> rfl
    exact heq ▸ hr'
  · rw [hinvalid] at h
    cases r <;> cases h

theorem parse_eq_invalid_iff {s t : String} :
    parse s = .error (.invalid t) ↔ t = s ∧ ∀ r, ¬Denotes s r := by
  constructor
  · intro h
    have hnone : ∀ r, ¬Denotes s r := by
      intro r hr
      rw [parse_of_denotes hr] at h
      cases r <;> cases h
    rcases exists_denotes_or_invalid s with ⟨r, hr, -⟩ | hinvalid
    · exact absurd hr (hnone r)
    · rw [hinvalid] at h
      cases h
      exact ⟨rfl, hnone⟩
  · rintro ⟨rfl, hnone⟩
    rcases exists_denotes_or_invalid t with ⟨r, hr, -⟩ | hinvalid
    · exact absurd hr (hnone r)
    · exact hinvalid

theorem not_mem_of_parse {s : String} {f : Fraction} (h : parse s = .ok f) : '@' ∉ s.toList := by
  rcases parse_cases s with ⟨n, hn⟩ | ⟨before, after, n, d, hs, hn, hd⟩ | hinvalid
  · exact not_mem_of_part? hn rfl rfl (by decide) (by decide)
  · rw [hs, List.mem_append, List.mem_cons, not_or, not_or]
    exact ⟨not_mem_of_part? hn rfl rfl (by decide) (by decide), by decide,
      not_mem_of_part? hd rfl rfl (by decide) (by decide)⟩
  · rw [hinvalid] at h
    cases h

theorem part?_ofInt (n : Int64) : part? (Numeral.ofInt n.toInt) = some n :=
  part?_eq_some_iff.2 ⟨_, .refl _, Numeral.int?_eq_some_iff.1 (Numeral.int?_ofInt _)⟩

theorem parse_quotient (n d : Int64) :
    parse (String.ofList (Numeral.ofInt n.toInt ++ '/' :: Numeral.ofInt d.toInt)) =
      (ofWords n d).mapError .arithmetic :=
  parse_of_parts String.toList_ofList (part?_ofInt n) (part?_ofInt d)

theorem parse_canonical (f : Fraction) : parse f.canonical = .ok f := by
  rw [canonical, canonicalChars, parse_quotient, ofWords_parts]
  rfl

theorem eq_whole_of_isWhole {f : Fraction} (h : f.isWhole = true) : f = whole f.num :=
  toRat_injective (by rw [toRat_of_isWhole h, toRat_whole])

theorem parse_toString (f : Fraction) : parse (toString f) = .ok f := by
  change parse (String.ofList f.displayChars) = .ok f
  unfold displayChars
  split
  · rename_i hwhole
    rw [parse_of_part (n := f.num) (by rw [String.toList_ofList, part?_ofInt]),
      ← eq_whole_of_isWhole hwhole]
  · exact parse_canonical f

/-- Both written forms of a fraction are read as that fraction. A text is read as what it stands
for in the grammar, be it a fraction or an error of arithmetic; any other text is refused, and the
complaint has it as it was given. -/
theorem parse_spec (f : Fraction) (s : String) :
    parse f.canonical = .ok f ∧ parse (toString f) = .ok f ∧
      (∀ r, parse s = r.mapError .arithmetic ↔ Denotes s r) ∧
      ∀ t, parse s = .error (.invalid t) ↔ t = s ∧ ∀ r, ¬Denotes s r :=
  ⟨parse_canonical f, parse_toString f, fun _ => parse_eq_iff, fun _ => parse_eq_invalid_iff⟩

end TargetQuiz.Fraction

import TargetQuiz.Proofs.ExpressionTokens

/-! Answers as items: numbers, marks and mixed numbers with blanks wherever they do not part a
number. The normal form expands just the mixed numbers among the items. -/
namespace TargetQuiz.Expression

/-- The text goes on as a mixed number does behind its whole. -/
structure GoesOn (cs separators num den rest : List Char) : Prop where
  eq : cs = separators ++ (num ++ '/' :: (den ++ rest))
  ne_nil : separators ≠ []
  separate : ∀ c ∈ separators, isMixedSeparator c = true
  num : IsRun num
  den : IsRun den
  stops : Stops rest

theorem isMixedSeparator_of_isDigit {c : Char} (h : c.isDigit = true) :
    isMixedSeparator c = false := isMixedSeparator_of_plain (.inl h)

theorem isDigit_of_isMixedSeparator {c : Char} (h : isMixedSeparator c = true) :
    c.isDigit = false := by
  by_contra hdigit
  rw [isMixedSeparator_of_isDigit (by simpa using hdigit)] at h
  cases h

theorem takeWhile_separators {separators rest : List Char}
    (h : ∀ c ∈ separators, isMixedSeparator c = true)
    (hrest : ∀ c ∈ rest.head?, isMixedSeparator c = false) :
    (separators ++ rest).takeWhile isMixedSeparator = separators ∧
      (separators ++ rest).dropWhile isMixedSeparator = rest := by
  rw [List.takeWhile_append_of_pos h, List.dropWhile_append_of_pos h]
  cases rest with
  | nil => simp
  | cons c rest => simp [hrest c rfl]

theorem IsRun.separates {digits : List Char} (hrun : IsRun digits) (rest : List Char) :
    ∀ c ∈ (digits ++ rest).head?, isMixedSeparator c = false := by
  cases digits with
  | nil => exact absurd rfl hrun.1
  | cons c digits => simpa using isMixedSeparator_of_isDigit (hrun.2 c List.mem_cons_self)

theorem isRun_takeWhile {cs : List Char} (h : (cs.takeWhile Char.isDigit).isEmpty = false) :
    IsRun (cs.takeWhile Char.isDigit) :=
  ⟨by simpa using h, fun c => List.all_eq_true.1 List.all_takeWhile c⟩

theorem mixedTail?_eq_some_iff {cs num den rest : List Char} :
    mixedTail? cs = some (num, den, rest) ↔ ∃ separators, GoesOn cs separators num den rest := by
  constructor
  · intro h
    unfold mixedTail? at h
    simp only at h
    split at h
    · rename_i afterSlash hslash
      split at h
      · cases h
      · rename_i hparts
        cases h
        simp only [Bool.or_eq_true, not_or, Bool.not_eq_true] at hparts
        obtain ⟨⟨hseparators, hnum⟩, hden⟩ := hparts
        refine ⟨cs.takeWhile isMixedSeparator, ⟨?_, by simpa using hseparators,
          fun c => List.all_eq_true.1 List.all_takeWhile c, isRun_takeWhile hnum,
          isRun_takeWhile hden, stops_dropWhile _⟩⟩
        rw [List.takeWhile_append_dropWhile, ← hslash, List.takeWhile_append_dropWhile,
          List.takeWhile_append_dropWhile]
    · cases h
  · rintro ⟨separators, rfl, hne, hseparate, hnum, hden, hstop⟩
    obtain ⟨htake, hdrop⟩ := takeWhile_separators hseparate
      (hnum.separates ('/' :: (den ++ rest)))
    unfold mixedTail?
    simp only [htake, hdrop, takeWhile_run hnum (stops_slash _), dropWhile_run hnum (stops_slash _),
      takeWhile_run hden hstop, dropWhile_run hden hstop]
    simp [hne, hnum.1, hden.1]

theorem mixedTail?_eq_none_iff {cs : List Char} :
    mixedTail? cs = none ↔ ∀ separators num den rest, ¬GoesOn cs separators num den rest := by
  rw [Option.eq_none_iff_forall_ne_some]
  constructor
  · intro h separators num den rest hgoes
    exact h _ (mixedTail?_eq_some_iff.2 ⟨separators, hgoes⟩)
  · rintro h ⟨num, den, rest⟩ hsome
    obtain ⟨separators, hgoes⟩ := mixedTail?_eq_some_iff.1 hsome
    exact h separators num den rest hgoes

def sumText (whole num den : List Char) : List Char :=
  whole ++ ['+', '('] ++ num ++ ['/'] ++ den ++ [')']

theorem expandMixed_cons {c : Char} (hc : c.isDigit = false) (cs : List Char) :
    expandMixed (c :: cs) = c :: expandMixed cs := by
  rw [expandMixed, if_neg (by simp [hc])]

/-- A run of digits is the whole of a mixed number or stays as it is. -/
theorem expandMixed_run {digits cs : List Char} (hrun : IsRun digits) (hstop : Stops cs) :
    expandMixed (digits ++ cs) =
      match mixedTail? cs with
      | some (num, den, rest) => sumText digits num den ++ expandMixed rest
      | none => digits ++ expandMixed cs := by
  have htake := takeWhile_run hrun hstop
  have hdrop := dropWhile_run hrun hstop
  cases digits with
  | nil => exact absurd rfl hrun.1
  | cons c digits =>
    have hc : c.isDigit = true := hrun.2 c List.mem_cons_self
    rw [List.cons_append, List.takeWhile_cons_of_pos hc, List.cons.injEq] at htake
    rw [List.cons_append, List.dropWhile_cons_of_pos hc] at hdrop
    rw [List.cons_append, expandMixed, if_pos hc, htake.2, hdrop]
    split
    · rename_i hsome
      rw [hsome]
      rfl
    · rename_i hnone
      rw [hnone]

theorem GoesOn.stops_front {cs separators num den rest : List Char}
    (h : GoesOn cs separators num den rest) : Stops cs := by
  obtain ⟨rfl, hne, hseparate, _, _, _⟩ := h
  cases separators with
  | nil => exact absurd rfl hne
  | cons c separators => exact isDigit_of_isMixedSeparator (hseparate c List.mem_cons_self)

inductive Item where
  | lexeme (l : Lexeme)
  | mixed (whole num den : List Char)
  deriving DecidableEq, Repr

namespace Item

abbrev mark (c : Char) : Item := lexeme (.mark c)

abbrev number (digits : List Char) : Item := lexeme (.number digits)

def text : Item → List Char
  | lexeme (.number digits) => digits
  | lexeme (.ratio num den) => num ++ '/' :: den
  | lexeme (.mark c) => [c]
  | mixed whole num den => sumText whole num den

end Item

def MarkNext (items : List Item) : Prop := ∀ i ∈ items.head?, ∃ c, i = .mark c

/-- The ways in which items are typed: with blanks between them, with any of the signs that stand
for a mark, and a mixed number with spaces and underscores behind its whole. -/
inductive Typed : List Item → List Char → Prop
  | nil : Typed [] []
  | blank {c : Char} {items : List Item} {cs : List Char} (hc : Text.isBlank c = true)
      (h : Typed items cs) : Typed items (c :: cs)
  | mark {c : Char} {items : List Item} {cs : List Char} (hc : plainSign c ∈ marks)
      (h : Typed items cs) : Typed (.mark (plainSign c) :: items) (c :: cs)
  | number {digits cs : List Char} {items : List Item} (hrun : IsRun digits)
      (hnext : MarkNext items) (h : Typed items cs) :
      Typed (.number digits :: items) (digits ++ cs)
  | mixed {whole separators num den cs : List Char} {slash : Char} {items : List Item}
      (hwhole : IsRun whole) (hne : separators ≠ [])
      (hseparate : ∀ c ∈ separators, isMixedSeparator c = true) (hnum : IsRun num)
      (hslash : plainSign slash = '/') (hden : IsRun den) (hnext : MarkNext items)
      (h : Typed items cs) :
      Typed (.mixed whole num den :: items)
        (whole ++ (separators ++ (num ++ slash :: (den ++ cs))))

theorem plainSign_of_isBlank {c : Char} (h : Text.isBlank c = true) : plainSign c = c := by
  unfold plainSign
  split <;> first | rfl | exact absurd h (by decide)

theorem isDigit_of_isBlank {c : Char} (h : Text.isBlank c = true) : c.isDigit = false := by
  by_contra hdigit
  rw [Text.isBlank_of_isDigit (by simpa using hdigit)] at h
  cases h

theorem isDigit_of_mem_marks {c : Char} (h : c ∈ marks) : c.isDigit = false := by
  simp only [marks, List.mem_cons, List.not_mem_nil, or_false] at h
  rcases h with rfl | rfl | rfl | rfl | rfl | rfl <;> decide

theorem map_plainSign_separators {separators : List Char}
    (h : ∀ c ∈ separators, isMixedSeparator c = true) : separators.map plainSign = separators := by
  rw [List.map_congr_left (g := id), List.map_id]
  intro c hc
  have hsep := h c hc
  simp only [isMixedSeparator, Bool.or_eq_true, beq_iff_eq] at hsep
  rcases hsep with rfl | rfl <;> rfl

theorem map_plainSign_run {digits : List Char} (h : IsRun digits) :
    digits.map plainSign = digits := map_plainSign_of_plain fun c hc => .inl (h.2 c hc)

/-- Behind blanks no digit stands in front of a mark, so a number before it is not taken for the
whole of a mixed number. -/
theorem Typed.stops_of_markNext {items : List Item} {cs : List Char} (h : Typed items cs)
    (hnext : MarkNext items) {separators rest : List Char}
    (hseparate : ∀ c ∈ separators, isMixedSeparator c = true)
    (hsplit : cs.map plainSign = separators ++ rest) : Stops rest := by
  induction h generalizing separators with
  | nil =>
    obtain ⟨-, rfl⟩ := List.nil_eq_append_iff.1 hsplit
    trivial
  | @blank c items cs hc h ih =>
    rw [List.map_cons, plainSign_of_isBlank hc] at hsplit
    cases separators with
    | nil =>
      rw [List.nil_append] at hsplit
      rw [← hsplit]
      exact isDigit_of_isBlank hc
    | cons s separators =>
      obtain ⟨rfl, htail⟩ := List.cons_eq_cons.1 hsplit
      exact ih hnext (List.forall_mem_cons.1 hseparate).2 htail
  | @mark c items cs hc h ih =>
    rw [List.map_cons] at hsplit
    cases separators with
    | nil =>
      rw [List.nil_append] at hsplit
      rw [← hsplit]
      exact isDigit_of_mem_marks hc
    | cons s separators =>
      obtain ⟨rfl, -⟩ := List.cons_eq_cons.1 hsplit
      have hsep := (List.forall_mem_cons.1 hseparate).1
      rw [(unchanged_of_mem_marks hc).2.1] at hsep
      cases hsep
  | number =>
    obtain ⟨c, hmark⟩ := hnext _ rfl
    cases hmark
  | mixed =>
    obtain ⟨c, hmark⟩ := hnext _ rfl
    cases hmark

theorem IsRun.plain {digits : List Char} (h : IsRun digits) : ∀ c ∈ digits, Plain c :=
  fun c hc => .inl (h.2 c hc)

theorem plain_sumText {whole num den : List Char} (hwhole : IsRun whole) (hnum : IsRun num)
    (hden : IsRun den) : ∀ c ∈ sumText whole num den, Plain c := by
  intro c hc
  simp only [sumText, List.mem_append, List.mem_cons, List.not_mem_nil, or_false] at hc
  rcases hc with ((((hc | rfl | rfl) | hc) | rfl) | hc) | rfl
  · exact hwhole.plain c hc
  · exact .inr (by decide)
  · exact .inr (by decide)
  · exact hnum.plain c hc
  · exact .inr (by decide)
  · exact hden.plain c hc
  · exact .inr (by decide)

theorem filter_of_plain {cs : List Char} (h : ∀ c ∈ cs, Plain c) :
    cs.filter (fun c => !Text.isBlank c) = cs := by
  rw [List.filter_eq_self]
  exact fun c hc => by simp [isBlank_of_plain (h c hc)]

theorem Typed.plain_text {items : List Item} {cs : List Char} (h : Typed items cs) :
    ∀ c ∈ items.flatMap Item.text, Plain c := by
  induction h with
  | nil => simp
  | blank _ _ ih => exact ih
  | mark hc _ ih => exact List.forall_mem_cons.2 ⟨.inr hc, ih⟩
  | number hrun _ _ ih => exact List.forall_mem_append.2 ⟨hrun.plain, ih⟩
  | mixed hwhole _ _ hnum _ hden _ _ ih =>
    exact List.forall_mem_append.2 ⟨plain_sumText hwhole hnum hden, ih⟩

/-- The normal form writes every mixed number as a sum and changes nothing else. -/
theorem Typed.filter_expandMixed {items : List Item} {cs : List Char} (h : Typed items cs) :
    (expandMixed (cs.map plainSign)).filter (fun c => !Text.isBlank c) =
      items.flatMap Item.text := by
  induction h with
  | nil =>
    rw [List.map_nil, expandMixed]
    rfl
  | blank hc _ ih =>
    rw [List.map_cons, plainSign_of_isBlank hc, expandMixed_cons (isDigit_of_isBlank hc),
      List.filter_cons_of_neg (by simp [hc]), ih]
  | mark hc _ ih =>
    rw [List.map_cons, expandMixed_cons (isDigit_of_mem_marks hc),
      List.filter_cons_of_pos (by simp [(unchanged_of_mem_marks hc).2.2]), ih]
    rfl
  | @number digits cs items hrun hnext h ih =>
    have hstop := h.stops_of_markNext hnext (List.forall_mem_nil _) rfl
    have hnone : mixedTail? (cs.map plainSign) = none := by
      refine mixedTail?_eq_none_iff.2 fun separators num den rest hgoes => ?_
      have hdigit := h.stops_of_markNext hnext hgoes.separate hgoes.eq
      exact hgoes.num.not_stops _ hdigit
    rw [List.map_append, map_plainSign_run hrun, expandMixed_run hrun hstop, hnone]
    simp only
    rw [List.filter_append, filter_of_plain hrun.plain, ih]
    rfl
  | @mixed whole separators num den cs slash items hwhole hne hseparate hnum hslash hden hnext
      h ih =>
    have hstop := h.stops_of_markNext hnext (List.forall_mem_nil _) rfl
    have hgoes : GoesOn (separators ++ (num ++ '/' :: (den ++ cs.map plainSign))) separators num
      den (cs.map plainSign) := ⟨rfl, hne, hseparate, hnum, hden, hstop⟩
    simp only [List.map_append, List.map_cons, map_plainSign_run hwhole, map_plainSign_run hnum,
      map_plainSign_run hden, map_plainSign_separators hseparate, hslash]
    rw [expandMixed_run hwhole hgoes.stops_front, mixedTail?_eq_some_iff.2 ⟨_, hgoes⟩]
    simp only
    rw [List.filter_append, filter_of_plain (plain_sumText hwhole hnum hden), ih]
    rfl

theorem Typed.normalChars_eq {items : List Item} {cs : List Char} (h : Typed items cs) :
    normalChars cs = items.flatMap Item.text := h.filter_expandMixed

theorem Typed.evaluateFreely_eq {items : List Item} {answer : String}
    (h : Typed items answer.toList) :
    evaluateFreely answer = evaluateFreely (String.ofList (items.flatMap Item.text)) := by
  rw [evaluateFreely, evaluateFreely, evaluateFreelyChars, evaluateFreelyChars, h.normalChars_eq,
    String.toList_ofList, normalChars_of_plain h.plain_text]

end TargetQuiz.Expression

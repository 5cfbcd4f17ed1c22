import TargetQuiz.Proofs.ExpressionMixed

/-! The mixed numbers of a text are rewritten one after the other, the leftmost first. That fixes
the normal form, so what each step keeps is kept by the normal form. -/
namespace TargetQuiz.Expression

/-- A mixed number between two parts of a text. No digit stands before its whole or behind its
denominator. -/
structure MixedAt (cs before whole num den after : List Char) : Prop where
  starts : EndsRun before
  run : IsRun whole
  goesOn : ∃ behind separators, cs = before ++ (whole ++ behind) ∧
    GoesOn behind separators num den after

/-- A text, the number of mixed numbers rewritten in it, and what becomes of it. -/
inductive Rewritten : List Char → Nat → List Char → Prop
  | done {cs : List Char} (hnone : ∀ before whole num den after,
      ¬MixedAt cs before whole num den after) : Rewritten cs 0 cs
  | first {cs before whole num den after out : List Char} {k : Nat}
      (h : MixedAt cs before whole num den after)
      (hleft : ∀ before' whole' num' den' after',
        MixedAt cs before' whole' num' den' after' → before.length ≤ before'.length)
      (hrest : Rewritten after k out) :
      Rewritten cs (k + 1) (before ++ (sumText whole num den ++ out))

/-! A text is rewritten in one way. -/

section Unique

variable {cs before whole num den after : List Char}

theorem GoesOn.unique {separators separators' num' den' rest rest' : List Char}
    (h : GoesOn cs separators num den rest) (h' : GoesOn cs separators' num' den' rest') :
    num = num' ∧ den = den' ∧ rest = rest' := by
  have htail := mixedTail?_eq_some_iff.2 ⟨_, h⟩
  rw [mixedTail?_eq_some_iff.2 ⟨_, h'⟩] at htail
  simpa [eq_comm] using htail

theorem MixedAt.unique {whole' num' den' after' : List Char}
    (h : MixedAt cs before whole num den after) (h' : MixedAt cs before whole' num' den' after') :
    whole = whole' ∧ num = num' ∧ den = den' ∧ after = after' := by
  obtain ⟨behind, separators, heq, hgoes⟩ := h.goesOn
  obtain ⟨behind', separators', heq', hgoes'⟩ := h'.goesOn
  obtain ⟨rfl, rfl⟩ := run_append_inj h.run h'.run hgoes.stops_front hgoes'.stops_front
    (List.append_cancel_left (heq.symm.trans heq'))
  exact ⟨rfl, hgoes.unique hgoes'⟩

theorem MixedAt.before_eq {before' whole' num' den' after' : List Char}
    (h : MixedAt cs before whole num den after) (h' : MixedAt cs before' whole' num' den' after')
    (hlength : before.length = before'.length) : before = before' := by
  obtain ⟨_, _, heq, _⟩ := h.goesOn
  obtain ⟨_, _, heq', _⟩ := h'.goesOn
  exact (List.append_inj (heq.symm.trans heq') hlength).1

theorem Rewritten.unique {k k' : Nat} {out out' : List Char} (h : Rewritten cs k out)
    (h' : Rewritten cs k' out') : k = k' ∧ out = out' := by
  induction h generalizing k' out' with
  | done hnone =>
    cases h' with
    | done => exact ⟨rfl, rfl⟩
    | first h => exact absurd h (hnone _ _ _ _ _)
  | first h hleft hrest ih =>
    cases h' with
    | done hnone => exact absurd h (hnone _ _ _ _ _)
    | first h' hleft' hrest' =>
      obtain rfl := h.before_eq h' (Nat.le_antisymm (hleft _ _ _ _ _ h') (hleft' _ _ _ _ _ h))
      obtain ⟨rfl, rfl, rfl, rfl⟩ := h.unique h'
      obtain ⟨rfl, rfl⟩ := ih hrest'
      exact ⟨rfl, rfl⟩

end Unique

/-! Every text is rewritten in that way. -/

section Expansion

variable {front rest before whole num den after : List Char}

theorem endsRun_append_of_ne_nil (h : before ≠ []) :
    EndsRun (front ++ before) ↔ EndsRun before := by
  rw [EndsRun, EndsRun, List.getLast?_append_of_ne_nil front h]

/-- Where no run of digits is parted, a text in front changes no mixed number. -/
theorem mixedAt_append_iff (hcut : EndsRun front ∨ Stops rest) :
    MixedAt (front ++ rest) (front ++ before) whole num den after ↔
      MixedAt rest before whole num den after := by
  constructor
  · rintro ⟨hstarts, hrun, behind, separators, heq, hgoes⟩
    refine ⟨?_, hrun, behind, separators, ?_, hgoes⟩
    · by_cases hnil : before = []
      · simp [hnil, EndsRun]
      · exact (endsRun_append_of_ne_nil hnil).1 hstarts
    · exact List.append_cancel_left (heq.trans (List.append_assoc _ _ _))
  · rintro ⟨hstarts, hrun, behind, separators, rfl, hgoes⟩
    refine ⟨?_, hrun, behind, separators, (List.append_assoc _ _ _).symm, hgoes⟩
    by_cases hnil : before = []
    · subst hnil
      rw [List.append_nil]
      exact hcut.resolve_right (hrun.not_stops _)
    · exact (endsRun_append_of_ne_nil hnil).2 hstarts

def KeptBefore (front rest : List Char) : Prop :=
  ∀ before whole num den after, MixedAt (front ++ rest) before whole num den after →
    ∃ before', before = front ++ before'

theorem Rewritten.append {k : Nat} {out : List Char} (hcut : EndsRun front ∨ Stops rest)
    (hkept : KeptBefore front rest) (h : Rewritten rest k out) :
    Rewritten (front ++ rest) k (front ++ out) := by
  cases h with
  | done hnone =>
    refine .done fun before whole num den after hmixed => ?_
    obtain ⟨before', rfl⟩ := hkept _ _ _ _ _ hmixed
    exact hnone _ _ _ _ _ ((mixedAt_append_iff hcut).1 hmixed)
  | first h hleft hrest =>
    rw [← List.append_assoc]
    refine .first ((mixedAt_append_iff hcut).2 h) ?_ hrest
    intro before whole num den after hmixed
    obtain ⟨before', rfl⟩ := hkept _ _ _ _ _ hmixed
    have hle := hleft _ _ _ _ _ ((mixedAt_append_iff hcut).1 hmixed)
    simpa using hle

theorem keptBefore_nondigit {c : Char} (hc : c.isDigit = false) (rest : List Char) :
    KeptBefore [c] rest := by
  rintro before whole num den after ⟨-, hrun, behind, separators, heq, -⟩
  cases before with
  | nil =>
    rw [List.nil_append, List.singleton_append] at heq
    refine absurd ?_ (hrun.not_stops behind)
    rw [← heq]
    exact hc
  | cons d before =>
    obtain ⟨rfl, -⟩ := List.cons_eq_cons.1 heq
    exact ⟨before, rfl⟩

theorem EndsRun.eq_nil {digits : List Char} (h : EndsRun digits)
    (hdigits : ∀ c ∈ digits, c.isDigit = true) : digits = [] := by
  by_contra hne
  have hlast := h _ (List.getLast?_eq_some_getLast hne)
  rw [hdigits _ (List.getLast_mem hne)] at hlast
  cases hlast

theorem keptBefore_run {digits : List Char} (hrun : IsRun digits) (hstop : Stops rest)
    (hnone : mixedTail? rest = none) : KeptBefore digits rest := by
  rintro before whole num den after ⟨hstarts, hwhole, behind, separators, heq, hgoes⟩
  rcases List.append_eq_append_iff.1 heq with ⟨before', rfl, -⟩ | ⟨inside, hdigits, hbehind⟩
  · exact ⟨before', rfl⟩
  · -- a mixed number that begins inside of the run begins with it, and nothing goes on behind
    have hnil := hstarts.eq_nil fun c hc => hrun.2 c (hdigits ▸ List.mem_append_left _ hc)
    rw [hnil, List.nil_append] at hdigits
    rw [← hdigits] at hbehind
    obtain ⟨-, rfl⟩ := run_append_inj hwhole hrun hgoes.stops_front hstop hbehind
    exact absurd hgoes (mixedTail?_eq_none_iff.1 hnone _ _ _ _)

theorem exists_rewritten (cs : List Char) : ∃ k, Rewritten cs k (expandMixed cs) := by
  -- by length: what is left is a tail, the text behind a run or the text behind a mixed number
  induction hn : cs.length using Nat.strongRecOn generalizing cs with
  | _ n ih =>
    match cs with
    | [] =>
      refine ⟨0, ?_⟩
      rw [expandMixed]
      refine .done fun before whole num den after h => ?_
      obtain ⟨behind, separators, heq, -⟩ := h.goesOn
      exact h.run.1 (by simp_all)
    | c :: cs =>
      cases hc : c.isDigit with
      | false =>
        obtain ⟨k, hrest⟩ := ih cs.length (by simp [← hn]) cs rfl
        rw [expandMixed_cons hc]
        exact ⟨k, hrest.append (.inl (by simpa [EndsRun] using hc)) (keptBefore_nondigit hc cs)⟩
      | true =>
        obtain ⟨digits, rest, heq, hrun, hstop⟩ := exists_run_append hc cs
        have hlength : rest.length < n := by
          have hpos := List.length_pos_of_ne_nil hrun.1
          rw [← hn, heq, List.length_append]
          omega
        rw [heq, expandMixed_run hrun hstop]
        cases htail : mixedTail? rest with
        | none =>
          obtain ⟨k, hrest⟩ := ih rest.length hlength rest rfl
          exact ⟨k, hrest.append (.inr hstop) (keptBefore_run hrun hstop htail)⟩
        | some parts =>
          obtain ⟨num, den, after⟩ := parts
          obtain ⟨separators, hgoes⟩ := mixedTail?_eq_some_iff.1 htail
          have hafter := length_of_mixedTail? htail
          obtain ⟨k, hrest⟩ := ih after.length (by omega) after rfl
          have hmixed : MixedAt (digits ++ rest) [] digits num den after :=
            ⟨by simp [EndsRun], hrun, rest, separators, rfl, hgoes⟩
          exact ⟨k + 1, .first hmixed (fun _ _ _ _ _ _ => Nat.zero_le _) hrest⟩

theorem Rewritten.out_eq {cs : List Char} {k : Nat} {out : List Char} (h : Rewritten cs k out) :
    out = expandMixed cs := by
  obtain ⟨k', h'⟩ := exists_rewritten cs
  exact (h.unique h').2

end Expansion

/-! Signs. -/

def alternateSigns : List Char :=
  ['\u00d7', '\u00b7', '\u2219', '\u2715', '\u00f7', '\u2215', ':', '\u2212', '\u2013']

theorem plainSign_eq_iff {c : Char} : plainSign c = c ↔ c ∉ alternateSigns := by
  unfold plainSign
  split <;> simp_all [alternateSigns]

theorem plainSign_plainSign (c : Char) : plainSign (plainSign c) = plainSign c := by
  rw [plainSign_eq_iff]
  unfold plainSign
  split <;> simp_all [alternateSigns]

theorem isDigit_plainSign (c : Char) : (plainSign c).isDigit = c.isDigit := by
  unfold plainSign
  split <;> rfl

theorem isBlank_plainSign (c : Char) : Text.isBlank (plainSign c) = Text.isBlank c := by
  unfold plainSign
  split <;> rfl

theorem isMixedSeparator_plainSign (c : Char) :
    isMixedSeparator (plainSign c) = isMixedSeparator c := by
  unfold plainSign
  split <;> rfl

/-! What rewriting keeps. -/

def added : List Char := ['+', '(', ')']

theorem facts_of_mem_added : ∀ c ∈ added, c.isDigit = false ∧ isMixedSeparator c = false ∧
    Text.isBlank c = false ∧ c ∉ alternateSigns ∧ ['/'].count c = 0 ∧
    ['+', '('].count c + [')'].count c = 1 := by
  intro c hc
  simp only [added, List.mem_cons, List.not_mem_nil, or_false] at hc
  rcases hc with rfl | rfl | rfl <;> exact ⟨rfl, rfl, rfl, by simp [alternateSigns], rfl, rfl⟩

/-- The separators of a mixed number go, and each added character comes in once. -/
theorem Rewritten.count {cs out : List Char} {k : Nat} (h : Rewritten cs k out) {c : Char}
    (hc : c ∈ added) : out.count c = cs.count c + k := by
  obtain ⟨hdigit, hsep, -, -, hslash, honce⟩ := facts_of_mem_added c hc
  induction h with
  | done => rfl
  | @first cs before whole num den after out k h hleft hrest ih =>
    obtain ⟨behind, separators, rfl, hgoes⟩ := h.goesOn
    obtain ⟨rfl, -, hseparate, hnum, hden, -⟩ := hgoes
    have hnone : ∀ digits, IsRun digits → digits.count c = 0 :=
      fun digits hrun => List.count_eq_zero.2 (hrun.not_mem hdigit)
    have hseparators : separators.count c = 0 := by
      rw [List.count_eq_zero]
      intro hmem
      rw [hseparate c hmem] at hsep
      cases hsep
    rw [← List.singleton_append (x := '/')]
    simp only [sumText, List.count_append, hnone _ h.run, hnone _ hnum, hnone _ hden, hseparators,
      hslash, ih]
    omega

theorem Rewritten.filter {cs out : List Char} {k : Nat} (h : Rewritten cs k out)
    {p : Char → Bool} (hadded : ∀ c ∈ added, p c = false)
    (hseparator : ∀ c, isMixedSeparator c = true → p c = false) :
    out.filter p = cs.filter p := by
  induction h with
  | done => rfl
  | @first cs before whole num den after out k h hleft hrest ih =>
    obtain ⟨behind, separators, rfl, hgoes⟩ := h.goesOn
    obtain ⟨rfl, -, hseparate, -, -, -⟩ := hgoes
    have hopen : ['+', '('].filter p = [] := by
      simp [hadded _ (show '+' ∈ added by decide), hadded _ (show '(' ∈ added by decide)]
    have hclose : [')'].filter p = [] := by simp [hadded _ (show ')' ∈ added by decide)]
    have hseparators : separators.filter p = [] := by
      rw [List.filter_eq_nil_iff]
      exact fun c hc => by simp [hseparator c (hseparate c hc)]
    rw [← List.singleton_append (x := '/')]
    simp only [sumText, List.filter_append, hopen, hclose, hseparators, ih, List.nil_append,
      List.append_assoc]

theorem Rewritten.mem {cs out : List Char} {k : Nat} (h : Rewritten cs k out) {c : Char}
    (hc : c ∈ out) : c ∈ cs ∨ c ∈ added := by
  induction h with
  | done => exact .inl hc
  | @first cs before whole num den after out k h hleft hrest ih =>
    obtain ⟨behind, separators, rfl, hgoes⟩ := h.goesOn
    obtain ⟨rfl, -, -, -, -, -⟩ := hgoes
    simp only [sumText, added, List.mem_append, List.mem_cons, List.not_mem_nil] at hc ih ⊢
    grind

theorem plainSign_beq {c : Char} (hc : c ∈ added) (d : Char) : (plainSign d == c) = (d == c) := by
  simp only [added, List.mem_cons, List.not_mem_nil, or_false] at hc
  unfold plainSign
  rcases hc with rfl | rfl | rfl <;> split <;> rfl

theorem count_map_plainSign {c : Char} (hc : c ∈ added) (cs : List Char) :
    (cs.map plainSign).count c = cs.count c := by
  simp only [List.count_eq_countP, List.countP_map]
  exact congrArg (List.countP · cs) (funext (plainSign_beq hc))

theorem filter_map_plainSign {p : Char → Bool} (h : ∀ c, p (plainSign c) = p c) (cs : List Char) :
    (cs.map plainSign).filter p = (cs.filter p).map plainSign := by
  rw [List.filter_map]
  exact congrArg (fun q => (cs.filter q).map plainSign) (funext h)

/-! The normal form. -/

theorem count_normalChars {cs : List Char} {k : Nat} {out : List Char}
    (h : Rewritten (cs.map plainSign) k out) {c : Char} (hc : c ∈ added) :
    (normalChars cs).count c = cs.count c + k := by
  obtain ⟨-, -, hblank, -⟩ := facts_of_mem_added c hc
  rw [normalChars, ← h.out_eq, List.count_filter (by simp [hblank]), h.count hc,
    count_map_plainSign hc]

theorem filter_isDigit_normalChars (cs : List Char) :
    (normalChars cs).filter Char.isDigit = cs.filter Char.isDigit := by
  obtain ⟨k, h⟩ := exists_rewritten (cs.map plainSign)
  have hblank : ∀ c : Char, (c.isDigit && !Text.isBlank c) = c.isDigit := by
    intro c
    cases hc : c.isDigit with
    | false => rfl
    | true => simp [Text.isBlank_of_isDigit hc]
  have hsigns : (cs.filter Char.isDigit).map plainSign = cs.filter Char.isDigit :=
    map_plainSign_of_plain fun c hc => .inl (List.mem_filter.1 hc).2
  rw [normalChars, List.filter_filter, funext hblank,
    h.filter (fun c hc => (facts_of_mem_added c hc).1) fun c => isDigit_of_isMixedSeparator,
    filter_map_plainSign isDigit_plainSign, hsigns]

theorem of_mem_normalChars {cs : List Char} {c : Char} (hc : c ∈ normalChars cs) :
    Text.isBlank c = false ∧ c ∉ alternateSigns := by
  obtain ⟨k, h⟩ := exists_rewritten (cs.map plainSign)
  obtain ⟨hout, hblank⟩ := List.mem_filter.1 hc
  refine ⟨by simpa using hblank, ?_⟩
  rcases h.mem hout with hmem | hmem
  · obtain ⟨d, -, rfl⟩ := List.mem_map.1 hmem
    exact plainSign_eq_iff.1 (plainSign_plainSign d)
  · exact (facts_of_mem_added c hmem).2.2.2.1

/-! Blanks between characters. -/

/-- No two digits have blanks and nothing else between them. -/
def BlanksApart (cs : List Char) : Prop :=
  ∀ before x blanks y after, cs = before ++ x :: (blanks ++ y :: after) → blanks ≠ [] →
    (∀ c ∈ blanks, Text.isBlank c = true) → x.isDigit = true → y.isDigit = false

theorem BlanksApart.not_mixedAt {cs : List Char} (h : BlanksApart cs) (hunderscore : '_' ∉ cs)
    {before whole num den after : List Char} :
    ¬MixedAt (cs.map plainSign) before whole num den after := by
  rintro ⟨-, hwhole, behind, separators, heq, rfl, hne, hseparate, hnum, hden, -⟩
  obtain ⟨digits, x, rfl⟩ := (List.eq_nil_or_concat' whole).resolve_left hwhole.1
  obtain ⟨y, num, rfl⟩ := List.exists_cons_of_ne_nil hnum.1
  simp only [List.append_assoc, List.cons_append, List.nil_append, List.map_eq_append_iff,
    List.map_eq_cons_iff] at heq
  obtain ⟨front, _, rfl, -, front', _, rfl, -, x', _, rfl, rfl, blanks, _, rfl, rfl, y', rest, rfl,
    rfl, -⟩ := heq
  have hblanks : ∀ c ∈ blanks, Text.isBlank c = true := by
    intro c hc
    have hsep := hseparate _ (List.mem_map_of_mem hc)
    rw [isMixedSeparator_plainSign] at hsep
    simp only [isMixedSeparator, Bool.or_eq_true, beq_iff_eq] at hsep
    rcases hsep with rfl | rfl
    · rfl
    · exact absurd (by simp [hc]) hunderscore
  have hx : x'.isDigit = true := by
    rw [← isDigit_plainSign]
    exact hwhole.2 _ (by simp)
  have hy := hnum.2 _ List.mem_cons_self
  rw [isDigit_plainSign, h (front ++ front') x' blanks y' rest (by simp)
    (fun hnil => hne (by simp [hnil])) hblanks hx] at hy
  cases hy

theorem normalChars_of_blanksApart {cs : List Char} (h : BlanksApart cs) (hunderscore : '_' ∉ cs) :
    normalChars cs = (cs.filter fun c => !Text.isBlank c).map plainSign := by
  have hdone : Rewritten (cs.map plainSign) 0 (cs.map plainSign) :=
    .done fun _ _ _ _ _ => h.not_mixedAt hunderscore
  rw [normalChars, ← hdone.out_eq, filter_map_plainSign fun c => by rw [isBlank_plainSign]]

theorem normalize_insert_blanks {s spaced : String}
    (hinsert : spaced.toList.filter (fun c => !Text.isBlank c) = s.toList)
    (hunderscore : '_' ∉ s.toList) (h : BlanksApart spaced.toList) :
    normalize spaced = normalize s := by
  have hspaced : '_' ∉ spaced.toList := by
    intro hmem
    rw [← hinsert] at hunderscore
    exact hunderscore (List.mem_filter.2 ⟨hmem, rfl⟩)
  have hnoblank : ∀ c ∈ s.toList, Text.isBlank c = false := by
    intro c hc
    rw [← hinsert] at hc
    simpa using (List.mem_filter.1 hc).2
  have hs : BlanksApart s.toList := by
    intro before x blanks y after heq hne hblanks
    obtain ⟨b, blanks, rfl⟩ := List.exists_cons_of_ne_nil hne
    have hblank := hnoblank b (by simp [heq])
    rw [hblanks b List.mem_cons_self] at hblank
    cases hblank
  have hself : s.toList.filter (fun c => !Text.isBlank c) = s.toList := by
    rw [List.filter_eq_self]
    exact fun c hc => by simp [hnoblank c hc]
  rw [normalize, normalize, normalChars_of_blanksApart h hspaced,
    normalChars_of_blanksApart hs hunderscore, hinsert, hself]

/-- The normal form of a text is the text with plain signs, with the leftmost mixed numbers
rewritten and without blanks, and there is one way to rewrite them. So it has the digits of the
text in their order, each added character once more for each mixed number, no blank and no alternate
sign. Blanks that are put into a text without blanks and underscores, but not between two digits, do
not change it. -/
theorem normalize_rewrites (s : String) :
    (∃ k out, Rewritten (s.toList.map plainSign) k out ∧
      (∀ k' out', Rewritten (s.toList.map plainSign) k' out' → k' = k ∧ out' = out) ∧
      (normalize s).toList = out.filter (fun c => !Text.isBlank c) ∧
      ∀ c ∈ added, (normalize s).toList.count c = s.toList.count c + k) ∧
    (normalize s).toList.filter Char.isDigit = s.toList.filter Char.isDigit ∧
    (∀ c ∈ (normalize s).toList, Text.isBlank c = false ∧ c ∉ alternateSigns) ∧
    ∀ spaced : String, spaced.toList.filter (fun c => !Text.isBlank c) = s.toList →
      '_' ∉ s.toList → BlanksApart spaced.toList → normalize spaced = normalize s := by
  obtain ⟨k, h⟩ := exists_rewritten (s.toList.map plainSign)
  rw [normalize, String.toList_ofList]
  exact ⟨⟨k, _, h, fun k' out' h' => h'.unique h, rfl, fun c hc => count_normalChars h hc⟩,
    filter_isDigit_normalChars s.toList, fun c => of_mem_normalChars,
    fun spaced => normalize_insert_blanks⟩

theorem normalize_rewrites_spaced :
    BlanksApart "1\u2003\u00d7 2".toList ∧ normalize "1\u2003\u00d7 2" = normalize "1\u00d72" := by
  have h : BlanksApart "1\u2003\u00d7 2".toList := by
    intro before x blanks y after heq hne hblanks hx
    have hsuffix : x :: (blanks ++ y :: after) <:+ "1\u2003\u00d7 2".toList := ⟨before, heq.symm⟩
    obtain ⟨b, blanks, rfl⟩ := List.exists_cons_of_ne_nil hne
    replace hblanks := (List.forall_mem_cons.1 hblanks).2
    simp [List.suffix_cons_iff] at hsuffix
    rcases hsuffix with ⟨rfl, rfl, hrest⟩ | ⟨rfl, -⟩ | ⟨rfl, -⟩
    · cases blanks with
      | nil =>
        obtain ⟨rfl, -⟩ := List.cons_eq_cons.1 hrest
        rfl
      | cons b blanks =>
        obtain ⟨rfl, -⟩ := List.cons_eq_cons.1 hrest
        exact absurd (hblanks _ List.mem_cons_self) (by decide)
    · cases hx
    · cases hx
  obtain ⟨-, -, -, hinsert⟩ := normalize_rewrites "1\u00d72"
  exact ⟨h, hinsert _ (by decide) (by decide) h⟩

end TargetQuiz.Expression

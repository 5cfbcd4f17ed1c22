import TargetQuiz.Proofs.ExpressionText

/-! Whether a text has tokens: each offence is seen from the characters next to it and the run of
digits that begins there, and the scanner reports the leftmost one. -/
namespace TargetQuiz.Expression

/-! Offences. -/

def openers : List Char := ['(', '+', '-', '*', '/']

/-- The text is empty or ends with an opener, so that a minus sign behind it is no operator. -/
def WantsOperand (before : List Char) : Prop := ∀ c ∈ before.getLast?, c ∈ openers

def BeginsOperand (after : List Char) : Prop := ∃ c ∈ after.head?, c.isDigit = true ∨ c = '('

/-- No digit stands at the end, so that a run of digits behind the text begins there. -/
def EndsRun (before : List Char) : Prop := ∀ c ∈ before.getLast?, c.isDigit = false

/-- What is wrong at the place between two parts of a text. -/
inductive Offence : List Char → List Char → EvalError → Prop
  | strayCharacter {before after : List Char} {c : Char} (h : ¬Plain c) :
      Offence before (c :: after) (.syntaxError (.strayCharacter c before.length))
  | looseMinus {before after : List Char} (hbefore : WantsOperand before)
      (hafter : ¬BeginsOperand after) :
      Offence before ('-' :: after) (.syntaxError (.looseMinus before.length))
  | overflow {before after : List Char} (hbefore : EndsRun before)
      (h : Int64.maxValue.toInt < Numeral.value (after.takeWhile Char.isDigit)) :
      Offence before after .overflow

def LeftmostOffence (cs : List Char) (e : EvalError) : Prop :=
  ∃ before after, cs = before ++ after ∧ Offence before after e ∧
    ∀ earlier later e', cs = earlier ++ later → earlier.length < before.length →
      ¬Offence earlier later e'

def digitRuns (cs : List Char) : List (List Char) :=
  (cs.splitOnP fun c => !c.isDigit).filter fun run => !run.isEmpty

theorem wantsOperand_concat (before : List Char) (c : Char) :
    WantsOperand (before ++ [c]) ↔ c ∈ openers := by
  simp [WantsOperand]

theorem endsRun_concat (before : List Char) (c : Char) :
    EndsRun (before ++ [c]) ↔ c.isDigit = false := by
  simp [EndsRun]

theorem takeWhile_of_stops {cs : List Char} (h : Stops cs) : cs.takeWhile Char.isDigit = [] := by
  cases cs with
  | nil => rfl
  | cons c cs => exact List.takeWhile_cons_of_neg (by simpa [Stops] using h)

namespace Offence

variable {before after : List Char} {c : Char}

theorem not_overflow_of_stops (hstop : Stops after) : ¬Offence before after .overflow := by
  rintro ⟨⟩
  rename_i hbig
  rw [takeWhile_of_stops hstop] at hbig
  exact absurd hbig (by decide)

theorem isDigit_of_overflow (h : Offence before (c :: after) .overflow) : c.isDigit = true := by
  by_contra hc
  exact not_overflow_of_stops (by simpa [Stops] using hc) h

theorem not_nil (e : EvalError) : ¬Offence before [] e := by
  rintro ⟨⟩
  rename_i hbig
  exact absurd hbig (by decide)

theorem unique {e e' : EvalError} (h : Offence before after e) (h' : Offence before after e') :
    e = e' := by
  cases h with
  | strayCharacter hc =>
    cases h' with
    | strayCharacter => rfl
    | looseMinus => exact absurd (.inr (by decide)) hc
    | overflow hb hbig => exact absurd (.inl (isDigit_of_overflow (.overflow hb hbig))) hc
  | looseMinus =>
    cases h' with
    | strayCharacter hc => exact absurd (.inr (by decide)) hc
    | looseMinus => rfl
    | overflow hb hbig => exact absurd (isDigit_of_overflow (.overflow hb hbig)) (by decide)
  | overflow hb hbig =>
    cases h' with
    | strayCharacter hc => exact absurd (.inl (isDigit_of_overflow (.overflow hb hbig))) hc
    | looseMinus => exact absurd (isDigit_of_overflow (.overflow hb hbig)) (by decide)
    | overflow => rfl

/-- A digit offends only by the run that begins with it. -/
theorem not_digit {e : EvalError} (hc : c.isDigit = true)
    (hfits : EndsRun before →
      Numeral.value ((c :: after).takeWhile Char.isDigit) ≤ Int64.maxValue.toInt) :
    ¬Offence before (c :: after) e := by
  rintro ⟨⟩
  · rename_i hstray
    exact hstray (.inl hc)
  · exact absurd hc (by decide)
  · rename_i hbefore hbig
    exact absurd hbig (Int.not_lt.2 (hfits hbefore))

/-- A mark offends only when it is a minus sign in operand position. -/
theorem not_mark {e : EvalError} (hc : c ∈ marks)
    (hminus : c = '-' → WantsOperand before → BeginsOperand after) :
    ¬Offence before (c :: after) e := by
  intro h
  cases h with
  | strayCharacter hstray => exact hstray (.inr hc)
  | looseMinus hbefore hafter => exact hafter (hminus rfl hbefore)
  | overflow hbefore hbig =>
    have hdigit := isDigit_of_overflow (.overflow hbefore hbig)
    simp only [marks, List.mem_cons, List.not_mem_nil, or_false] at hc
    rcases hc with rfl | rfl | rfl | rfl | rfl | rfl <;> exact absurd hdigit (by decide)

end Offence

/-- The first offence of a text behind another one, if it has any. -/
inductive FirstOffence : List Char → List Char → Option EvalError → Prop
  | nil (before : List Char) : FirstOffence before [] none
  | here {before after : List Char} {e : EvalError} (h : Offence before after e) :
      FirstOffence before after (some e)
  | later {before after : List Char} {c : Char} {result : Option EvalError}
      (h : ∀ e, ¬Offence before (c :: after) e)
      (hafter : FirstOffence (before ++ [c]) after result) :
      FirstOffence before (c :: after) result

namespace FirstOffence

variable {before after : List Char} {result : Option EvalError}

theorem not_offence (h : FirstOffence before after none) {earlier later : List Char}
    (hsplit : after = earlier ++ later) (e : EvalError) : ¬Offence (before ++ earlier) later e := by
  generalize hresult : (none : Option EvalError) = result at h
  induction h generalizing earlier with
  | nil before =>
    obtain ⟨rfl, rfl⟩ := List.nil_eq_append_iff.1 hsplit
    exact Offence.not_nil e
  | here _ => cases hresult
  | @later before after c result hnot _ ih =>
    cases earlier with
    | nil =>
      rw [List.nil_append] at hsplit
      rw [← hsplit, List.append_nil]
      exact hnot e
    | cons d earlier =>
      obtain ⟨rfl, htail⟩ := List.cons_eq_cons.1 hsplit
      simpa using ih htail hresult

theorem exists_leftmost {e : EvalError} (h : FirstOffence before after (some e)) :
    ∃ earlier later, after = earlier ++ later ∧ Offence (before ++ earlier) later e ∧
      ∀ earlier' later' e', after = earlier' ++ later' → earlier'.length < earlier.length →
        ¬Offence (before ++ earlier') later' e' := by
  generalize hresult : some e = result at h
  induction h with
  | nil => cases hresult
  | @here before after e' h =>
    cases hresult
    exact ⟨[], after, rfl, by rwa [List.append_nil], fun _ _ _ _ hlt => absurd hlt (by simp)⟩
  | @later before after c result hnot _ ih =>
    obtain ⟨earlier, later, rfl, hoffence, hleft⟩ := ih hresult
    refine ⟨c :: earlier, later, rfl, by simpa using hoffence, ?_⟩
    intro earlier' later' e' hsplit hlt
    cases earlier' with
    | nil =>
      rw [List.nil_append] at hsplit
      rw [← hsplit, List.append_nil]
      exact hnot e'
    | cons d earlier' =>
      obtain ⟨rfl, htail⟩ := List.cons_eq_cons.1 hsplit
      simpa using hleft earlier' later' e' htail (by simpa using hlt)

theorem leftmostOffence {e : EvalError} (h : FirstOffence [] after (some e)) :
    LeftmostOffence after e := h.exists_leftmost

end FirstOffence

theorem LeftmostOffence.unique {cs : List Char} {e e' : EvalError} (h : LeftmostOffence cs e)
    (h' : LeftmostOffence cs e') : e = e' := by
  obtain ⟨before, after, rfl, hoffence, hleft⟩ := h
  obtain ⟨before', after', hsplit, hoffence', hleft'⟩ := h'
  obtain hlt | heq | hgt := Nat.lt_trichotomy before.length before'.length
  · exact absurd hoffence (hleft' before after e rfl hlt)
  · obtain ⟨rfl, rfl⟩ := List.append_inj hsplit heq
    exact hoffence.unique hoffence'
  · exact absurd hoffence' (hleft before' after' e' hsplit hgt)

/-! Lexemes. -/

def IsRun (digits : List Char) : Prop := digits ≠ [] ∧ ∀ c ∈ digits, c.isDigit = true

/-- The text is cut into the lexemes, and no digit is left behind a run. -/
inductive Cut : List Char → List Lexeme → Prop
  | nil : Cut [] []
  | number {digits rest : List Char} {ls : List Lexeme} (hrun : IsRun digits) (hstop : Stops rest)
      (h : Cut rest ls) : Cut (digits ++ rest) (.number digits :: ls)
  | ratio {num den rest : List Char} {ls : List Lexeme} (hnum : IsRun num) (hden : IsRun den)
      (hstop : Stops rest) (h : Cut rest ls) :
      Cut (num ++ '/' :: (den ++ rest)) (.ratio num den :: ls)
  | mark {c : Char} {rest : List Char} {ls : List Lexeme} (hc : c.isDigit = false)
      (h : Cut rest ls) : Cut (c :: rest) (.mark c :: ls)

theorem stops_dropWhile (cs : List Char) : Stops (cs.dropWhile Char.isDigit) := by
  have h := List.head?_dropWhile_not Char.isDigit cs
  cases hdrop : cs.dropWhile Char.isDigit with
  | nil => trivial
  | cons c rest => simpa [hdrop, Stops] using h

theorem stops_slash (cs : List Char) : Stops ('/' :: cs) := rfl

theorem takeWhile_run {digits rest : List Char} (hrun : IsRun digits) (hstop : Stops rest) :
    (digits ++ rest).takeWhile Char.isDigit = digits := by
  rw [List.takeWhile_append_of_pos hrun.2, takeWhile_of_stops hstop, List.append_nil]

theorem dropWhile_run {digits rest : List Char} (hrun : IsRun digits) (hstop : Stops rest) :
    (digits ++ rest).dropWhile Char.isDigit = rest := by
  rw [List.dropWhile_append_of_pos hrun.2]
  cases rest with
  | nil => rfl
  | cons c rest => exact List.dropWhile_cons_of_neg (by simpa [Stops] using hstop)

theorem run_append_inj {digits digits' rest rest' : List Char} (hrun : IsRun digits)
    (hrun' : IsRun digits') (hstop : Stops rest) (hstop' : Stops rest')
    (h : digits ++ rest = digits' ++ rest') : digits = digits' ∧ rest = rest' := by
  have hdigits : digits = digits' := by
    rw [← takeWhile_run hrun hstop, h, takeWhile_run hrun' hstop']
  exact ⟨hdigits, List.append_cancel_left (hdigits ▸ h)⟩

theorem pieces_run {digits rest : List Char} (hrun : IsRun digits) (hstop : Stops rest) :
    pieces (digits ++ rest) = .run digits :: pieces rest := pieces_digits hrun.1 hrun.2 hstop

theorem exists_run_append {c : Char} (hc : c.isDigit = true) (cs : List Char) :
    ∃ digits rest, c :: cs = digits ++ rest ∧ IsRun digits ∧ Stops rest := by
  refine ⟨c :: cs.takeWhile Char.isDigit, cs.dropWhile Char.isDigit, ?_, ⟨by simp, ?_⟩,
    stops_dropWhile cs⟩
  · rw [List.cons_append, List.takeWhile_append_dropWhile]
  · exact List.forall_mem_cons.2 ⟨hc, fun d => List.all_eq_true.1 List.all_takeWhile d⟩

theorem exists_of_not_noRatio {cs : List Char} (h : ¬NoRatio cs) :
    ∃ d rest, cs = '/' :: d :: rest ∧ d.isDigit = true := by
  unfold NoRatio at h
  split at h
  · rename_i rest
    cases rest with
    | nil => exact absurd trivial h
    | cons d rest => exact ⟨d, rest, rfl, by simpa [Stops] using h⟩
  · exact absurd trivial h

theorem cut_lexemes (cs : List Char) : Cut cs (lexemes (pieces cs)) := by
  induction hn : cs.length using Nat.strongRecOn generalizing cs with
  | _ n ih =>
    match cs with
    | [] => exact .nil
    | c :: cs =>
      cases hc : c.isDigit with
      | false =>
        rw [pieces_mark hc, lexemes]
        exact .mark hc (ih cs.length (by simp [← hn]) cs rfl)
      | true =>
        obtain ⟨digits, rest, heq, hdigits, hstop⟩ := exists_run_append hc cs
        rw [heq] at hn ⊢
        have hpos := List.length_pos_iff.2 hdigits.1
        rw [List.length_append] at hn
        rw [pieces_run hdigits hstop]
        by_cases hratio : NoRatio rest
        · rw [lexemes_run digits hratio]
          exact .number hdigits hstop (ih rest.length (by omega) rest rfl)
        · obtain ⟨d, tail, rfl, hd⟩ := exists_of_not_noRatio hratio
          obtain ⟨den, after, heq, hden, hafter⟩ := exists_run_append hd tail
          rw [heq] at hn ⊢
          rw [pieces_mark (by decide), pieces_run hden hafter, lexemes]
          simp only [List.length_cons, List.length_append] at hn
          exact .ratio hdigits hden hafter (ih after.length (by omega) after rfl)

def Lexeme.runs : Lexeme → List (List Char)
  | .number digits => [digits]
  | .ratio num den => [num, den]
  | .mark _ => []

theorem digitRuns_mark {c : Char} (hc : c.isDigit = false) (rest : List Char) :
    digitRuns (c :: rest) = digitRuns rest := by
  rw [digitRuns, List.splitOnP_cons_eq_if_modifyHead]
  simp [hc, digitRuns]

theorem digitRuns_run {digits rest : List Char} (hrun : IsRun digits) (hstop : Stops rest) :
    digitRuns (digits ++ rest) = digits :: digitRuns rest := by
  have hdigits : ∀ c ∈ digits, (!c.isDigit) = false := fun c hc => by simp [hrun.2 c hc]
  cases rest with
  | nil => simp [digitRuns, List.splitOnP_eq_singleton hdigits, hrun.1]
  | cons c rest =>
    have hc : c.isDigit = false := hstop
    rw [digitRuns_mark hc, digitRuns,
      List.splitOnP_append_cons_of_forall_mem hdigits c (by simp [hc])]
    simp [digitRuns, hrun.1]

theorem Cut.digitRuns_eq {cs : List Char} {ls : List Lexeme} (h : Cut cs ls) :
    digitRuns cs = ls.flatMap Lexeme.runs := by
  induction h with
  | nil => simp [digitRuns]
  | number hrun hstop _ ih => rw [digitRuns_run hrun hstop, ih]; rfl
  | ratio hnum hden hstop _ ih =>
    rw [digitRuns_run hnum (stops_slash _), digitRuns_mark (by decide), digitRuns_run hden hstop,
      ih]
    rfl
  | mark hc _ ih => rw [digitRuns_mark hc, ih]; rfl

theorem toInt_magnitude_signed {digits : List Char} {n : Int64} (negative : Bool)
    (h : wordOfDigits digits = .ok n) :
    (magnitude (signed negative n)).toInt = Numeral.value digits := by
  rw [toInt_magnitude (minValue_lt_signed negative h), toInt_signed_of_digits negative h]
  split <;> omega

theorem Denotes.toInt_typed {negative : Bool} {l : Lexeme} {o : Operand} (h : Denotes negative l o) :
    o.typed.map Int64.toInt = l.runs.map fun run => (Numeral.value run : Int) := by
  cases h with
  | number hn => simp [Operand.typed, Lexeme.runs, toInt_magnitude_signed negative hn]
  | ratio hn hd =>
    have hden := toInt_magnitude_signed false hd
    rw [signed, if_neg (by simp)] at hden
    simp [Operand.typed, Lexeme.runs, toInt_magnitude_signed negative hn, hden]

/-- No run is split, skipped or counted twice. -/
theorem Scanned.toInt_typedNumbers {fresh : Bool} {ls : List Lexeme} {tokens : List Token}
    (h : Scanned fresh ls tokens) :
    (typedNumbers tokens).map Int64.toInt =
      (ls.flatMap Lexeme.runs).map fun run => (Numeral.value run : Int) := by
  induction h with
  | nil => rfl
  | literal fresh h _ ih =>
    rw [List.flatMap_cons, List.map_append, ← ih, ← h.toInt_typed, ← List.map_append]
    rfl
  | opening fresh _ ih => exact ih
  | closing fresh _ ih => exact ih
  | operator op h _ ih => exact ih
  | negative h _ ih =>
    rw [List.flatMap_cons, List.flatMap_cons, List.map_append, List.map_append, ← ih,
      ← h.toInt_typed, ← List.map_append]
    rfl
  | negatedGroup _ ih => exact ih

/-! The scanner. -/

def fault {α : Type} : Except EvalError α → Option EvalError
  | .ok _ => none
  | .error e => some e

theorem fault_bind_pure {α β : Type} (x : Except EvalError α) (f : α → β) :
    fault (x >>= fun a => pure (f a)) = fault x := by
  cases x <;> rfl

namespace IsRun

variable {digits : List Char}

theorem not_stops (hrun : IsRun digits) (rest : List Char) : ¬Stops (digits ++ rest) := by
  cases digits with
  | nil => exact absurd rfl hrun.1
  | cons c digits => simp [Stops, hrun.2 c List.mem_cons_self]

theorem not_mem (hrun : IsRun digits) {c : Char} (hc : c.isDigit = false) : c ∉ digits := by
  intro hmem
  rw [hrun.2 c hmem] at hc
  cases hc

theorem beginsOperand (hrun : IsRun digits) (rest : List Char) :
    BeginsOperand (digits ++ rest) := by
  cases digits with
  | nil => exact absurd rfl hrun.1
  | cons c digits => exact ⟨c, rfl, .inl (hrun.2 c List.mem_cons_self)⟩

theorem not_wantsOperand (hrun : IsRun digits) (before : List Char) :
    ¬WantsOperand (before ++ digits) := by
  rw [← List.dropLast_append_getLast hrun.1, ← List.append_assoc, wantsOperand_concat]
  have hlast := hrun.2 _ (List.getLast_mem hrun.1)
  intro hopener
  simp only [openers, List.mem_cons, List.not_mem_nil, or_false] at hopener
  rcases hopener with h | h | h | h | h <;> rw [h] at hlast <;> exact absurd hlast (by decide)

end IsRun

theorem wordOfDigits_eq_error {digits : List Char} {e : EvalError}
    (h : wordOfDigits digits = .error e) :
    e = .overflow ∧ Int64.maxValue.toInt < Numeral.value digits := by
  unfold wordOfDigits at h
  split at h
  · cases h
  · rename_i hnone
    cases h
    rcases Word.int64?_eq_none_iff.1 hnone with hlt | hlt
    · exact absurd hlt (by rw [Int64.toInt_minValue]; omega)
    · exact ⟨rfl, hlt⟩

namespace FirstOffence

variable {β : Type} {before after digits : List Char}

theorem mark {c : Char} {result : Option EvalError} (hc : c ∈ marks)
    (hminus : c = '-' → WantsOperand before → BeginsOperand after)
    (h : FirstOffence (before ++ [c]) after result) : FirstOffence before (c :: after) result :=
  .later (fun _ => Offence.not_mark hc hminus) h

theorem skip {result : Option EvalError} (hbefore : ¬EndsRun before)
    (hdigits : ∀ c ∈ digits, c.isDigit = true) (h : FirstOffence (before ++ digits) after result) :
    FirstOffence before (digits ++ after) result := by
  induction digits generalizing before with
  | nil => simpa using h
  | cons c digits ih =>
    obtain ⟨hc, hdigits⟩ := List.forall_mem_cons.1 hdigits
    refine .later (fun e => Offence.not_digit hc fun hends => absurd hends hbefore) ?_
    refine ih ?_ hdigits (by simpa using h)
    simp [endsRun_concat, hc]

theorem run {result : Option EvalError} (hrun : IsRun digits) (hstop : Stops after)
    (hfits : (Numeral.value digits : Int) ≤ Int64.maxValue.toInt)
    (h : FirstOffence (before ++ digits) after result) :
    FirstOffence before (digits ++ after) result := by
  have htake := takeWhile_run hrun hstop
  cases digits with
  | nil => exact absurd rfl hrun.1
  | cons c digits =>
    obtain ⟨hc, hdigits⟩ := List.forall_mem_cons.1 hrun.2
    rw [List.cons_append] at htake ⊢
    refine .later (fun e => Offence.not_digit hc fun _ => by rwa [htake]) ?_
    refine skip ?_ hdigits (by simpa using h)
    simp [endsRun_concat, hc]

/-- A run of digits offends when it denotes no word, and then reading it fails. -/
theorem word {next : Int64 → Except EvalError β} (hbefore : EndsRun before) (hrun : IsRun digits)
    (hstop : Stops after) (h : ∀ n, FirstOffence (before ++ digits) after (fault (next n))) :
    FirstOffence before (digits ++ after) (fault (wordOfDigits digits >>= next)) := by
  cases hword : wordOfDigits digits with
  | error e =>
    obtain ⟨rfl, hbig⟩ := wordOfDigits_eq_error hword
    exact .here (.overflow hbefore (by rwa [takeWhile_run hrun hstop]))
  | ok n =>
    refine run hrun hstop ?_ (h n)
    rw [← wordOfDigits_eq_ok_iff.1 hword]
    exact Int.le_sub_one_of_lt n.toInt_lt

theorem number {negative : Bool} {next : Operand → Except EvalError β} (hbefore : EndsRun before)
    (hrun : IsRun digits) (hstop : Stops after)
    (h : ∀ o, FirstOffence (before ++ digits) after (fault (next o))) :
    FirstOffence before (digits ++ after) (fault (numberOperand negative digits >>= next)) := by
  rw [numberOperand, bind_assoc]
  exact word hbefore hrun hstop fun n => h _

theorem ratio {negative : Bool} {num den : List Char} {next : Operand → Except EvalError β}
    (hbefore : EndsRun before) (hnum : IsRun num) (hden : IsRun den) (hstop : Stops after)
    (h : ∀ o, FirstOffence (before ++ num ++ ['/'] ++ den) after (fault (next o))) :
    FirstOffence before (num ++ '/' :: (den ++ after))
      (fault (ratioOperand negative num den >>= next)) := by
  rw [ratioOperand, bind_assoc]
  refine word hbefore hnum (stops_slash _) fun n => ?_
  refine mark (by decide) (fun hslash => absurd hslash (by decide)) ?_
  rw [bind_assoc]
  exact word ((endsRun_concat _ _).2 (by decide)) hden hstop fun d => h _

end FirstOffence

/-- Where the scanner stands between two parts of a text. A run of digits begins there or none,
because no digit is left behind a run. -/
structure At (position : Nat) (fresh : Bool) (before after : List Char) : Prop where
  length_eq : before.length = position
  fresh_iff : fresh = true ↔ WantsOperand before
  boundary : EndsRun before ∨ Stops after

namespace At

variable {position : Nat} {fresh : Bool} {before after digits : List Char}

theorem endsRun (h : At position fresh before (digits ++ after)) (hrun : IsRun digits) :
    EndsRun before := h.boundary.resolve_right (hrun.not_stops after)

theorem mark {c : Char} {next : Bool} (h : At position fresh before (c :: after))
    (hc : c.isDigit = false) (hnext : next = true ↔ c ∈ openers) :
    At (position + 1) next (before ++ [c]) after where
  length_eq := by simp [h.length_eq]
  fresh_iff := hnext.trans (wantsOperand_concat before c).symm
  boundary := .inl ((endsRun_concat before c).2 hc)

theorem run (h : At position fresh before (digits ++ after)) (hrun : IsRun digits)
    (hstop : Stops after) : At (position + digits.length) false (before ++ digits) after where
  length_eq := by simp [h.length_eq]
  fresh_iff := iff_of_false (by simp) (hrun.not_wantsOperand before)
  boundary := .inr hstop

theorem ratio {num den : List Char} (h : At position fresh before (num ++ '/' :: (den ++ after)))
    (hnum : IsRun num) (hden : IsRun den) (hstop : Stops after) :
    At (position + (num.length + 1 + den.length)) false (before ++ num ++ ['/'] ++ den) after := by
  have hslash : At _ true _ _ := (h.run hnum (stops_slash _)).mark (by decide) (by decide)
  have hafter := hslash.run hden hstop
  rwa [Nat.add_assoc, Nat.add_assoc, ← Nat.add_assoc num.length] at hafter

end At

theorem Cut.not_beginsOperand {cs : List Char} {ls : List Lexeme} (hcut : Cut cs ls)
    (hnumber : ∀ digits rest, ls ≠ .number digits :: rest)
    (hratio : ∀ num den rest, ls ≠ .ratio num den :: rest)
    (hopening : ∀ rest, ls ≠ .mark '(' :: rest) : ¬BeginsOperand cs := by
  rintro ⟨d, hhead, hd⟩
  cases hcut with
  | nil => cases hhead
  | number => exact hnumber _ _ rfl
  | ratio => exact hratio _ _ _ rfl
  | mark hc _ =>
    cases hhead
    rcases hd with hd | rfl
    · simp [hc] at hd
    · exact hopening _ rfl

/-- A mark is a parenthesis or the symbol of an operator. -/
theorem not_mem_marks {c : Char} (hopening : c ≠ '(') (hclosing : c ≠ ')')
    (hop : Operator.ofSymbol? c = none) : c ∉ marks := by
  intro hmark
  simp only [marks, List.mem_cons, List.not_mem_nil, or_false] at hmark
  rcases hmark with rfl | rfl | rfl | rfl | rfl | rfl
  iterate 4 cases hop
  · exact hopening rfl
  · exact hclosing rfl

/-- The scanner fails with the first offence and on no other texts. -/
theorem firstOffence_scan {position : Nat} {fresh : Bool} {ls : List Lexeme}
    {before cs : List Char} (hcut : Cut cs ls) (hat : At position fresh before cs) :
    FirstOffence before cs (fault (scan position fresh ls)) := by
  -- one case for each way of the scanner: an end, a literal, a parenthesis, a minus sign where an
  -- operand has to come (6 to 9), any other mark
  fun_induction scan position fresh ls generalizing before cs with
  | case1 =>
    cases hcut
    exact .nil before
  | case2 position fresh digits rest ih =>
    cases hcut with
    | number hrun hstop hcut =>
      refine .number (hat.endsRun hrun) hrun hstop fun o => ?_
      rw [fault_bind_pure]
      exact ih hcut (hat.run hrun hstop)
  | case3 position fresh num den rest ih =>
    cases hcut with
    | ratio hnum hden hstop hcut =>
      refine .ratio (hat.endsRun hnum) hnum hden hstop fun o => ?_
      rw [fault_bind_pure]
      exact ih hcut (hat.ratio hnum hden hstop)
  | case4 position fresh rest ih =>
    cases hcut with
    | mark hc hcut =>
      rw [fault_bind_pure]
      refine .mark (by decide) (fun h => absurd h (by decide)) ?_
      exact ih hcut (hat.mark hc (by decide))
  | case5 position fresh rest ih =>
    cases hcut with
    | mark hc hcut =>
      rw [fault_bind_pure]
      refine .mark (by decide) (fun h => absurd h (by decide)) ?_
      exact ih hcut (hat.mark hc (by decide))
  | case6 position fresh c _ _ hminus digits rest ih =>
    obtain ⟨rfl, rfl⟩ := hminus
    cases hcut with
    | mark hc hcut =>
      cases hcut with
      | number hrun hstop hcut =>
        have hsign : At _ true _ _ := hat.mark hc (by decide)
        refine .mark (by decide) (fun _ _ => hrun.beginsOperand _) ?_
        refine .number (hsign.endsRun hrun) hrun hstop fun o => ?_
        rw [fault_bind_pure]
        exact ih hcut (hsign.run hrun hstop)
  | case7 position fresh c _ _ hminus num den rest ih =>
    obtain ⟨rfl, rfl⟩ := hminus
    cases hcut with
    | mark hc hcut =>
      cases hcut with
      | ratio hnum hden hstop hcut =>
        have hsign : At _ true _ _ := hat.mark hc (by decide)
        refine .mark (by decide) (fun _ _ => hnum.beginsOperand _) ?_
        refine .ratio (hsign.endsRun hnum) hnum hden hstop fun o => ?_
        rw [fault_bind_pure]
        exact ih hcut (hsign.ratio hnum hden hstop)
  | case8 position fresh c _ _ hminus rest ih =>
    obtain ⟨rfl, rfl⟩ := hminus
    cases hcut with
    | mark hc hcut =>
      cases hcut with
      | mark hopening hcut =>
        have hsign : At _ true _ _ := hat.mark hc (by decide)
        rw [fault_bind_pure]
        refine .mark (by decide) (fun _ _ => ⟨'(', rfl, .inr rfl⟩) ?_
        refine .mark (by decide) (fun h => absurd h (by decide)) ?_
        exact ih hcut (hsign.mark hopening (by decide))
  | case9 position fresh c rest _ _ hminus hnumber hratio hopening =>
    obtain ⟨rfl, rfl⟩ := hminus
    obtain ⟨rfl, hwants, _⟩ := hat
    cases hcut with
    | mark _ hcut =>
      exact .here (.looseMinus (hwants.1 rfl) (hcut.not_beginsOperand hnumber hratio hopening))
  | case10 position fresh c rest hopening hclosing hminus op hop ih =>
    cases hcut with
    | mark hc hcut =>
      rw [fault_bind_pure]
      obtain rfl := Operator.ofSymbol?_eq_some_iff.1 hop
      refine .mark (by cases op <;> decide) (fun hsub hwants => ?_) ?_
      · exact absurd ⟨hsub, hat.fresh_iff.2 hwants⟩ hminus
      · exact ih hcut (hat.mark hc (by cases op <;> decide))
  | case11 position fresh c rest hopening hclosing hminus hop =>
    obtain ⟨rfl, _, _⟩ := hat
    cases hcut with
    | mark hc hcut =>
      refine .here (.strayCharacter ?_)
      rintro (hdigit | hmark)
      · simp [hc] at hdigit
      · exact not_mem_marks hopening hclosing hop hmark

theorem firstOffence_tokenize (s : String) : FirstOffence [] s.toList (fault (tokenize s)) :=
  firstOffence_scan (cut_lexemes s.toList)
    ⟨rfl, iff_of_true rfl (by simp [WantsOperand]), .inl (by simp [EndsRun])⟩

/-- A text has tokens exactly when nothing in it offends, and then the typed numbers are the values
of its longest runs of digits, in order. A text without tokens has the error of its leftmost
offence, and an offence at a character tells its position. -/
theorem tokenize_spec (s : String) :
    ((∃ tokens, tokenize s = .ok tokens) ↔
      ∀ before after e, s.toList = before ++ after → ¬Offence before after e) ∧
    (∀ tokens, tokenize s = .ok tokens → (typedNumbers tokens).map Int64.toInt =
      (digitRuns s.toList).map fun run => (Numeral.value run : Int)) ∧
    (∀ e, tokenize s = .error e ↔ LeftmostOffence s.toList e) ∧
    ∀ position c, (SyntaxFault.looseMinus position).message =
        "invalid unary minus at position " ++ toString position ∧
      (SyntaxFault.strayCharacter c position).message =
        "invalid character " ++ Text.quotedChar c ++ " at position " ++ toString position := by
  have hfirst := firstOffence_tokenize s
  refine ⟨?_, ?_, ?_, fun position c => ⟨rfl, rfl⟩⟩
  · cases hs : tokenize s with
    | ok tokens =>
      rw [hs] at hfirst
      exact iff_of_true ⟨tokens, rfl⟩ fun before after e hsplit => hfirst.not_offence hsplit e
    | error e =>
      rw [hs] at hfirst
      obtain ⟨before, after, hsplit, hoffence, _⟩ := hfirst.leftmostOffence
      exact iff_of_false (by simp) fun h => h before after e hsplit hoffence
  · intro tokens htokens
    rw [(scan_eq_ok_iff.1 htokens).toInt_typedNumbers, (cut_lexemes s.toList).digitRuns_eq]
  · intro e
    cases hs : tokenize s with
    | ok tokens =>
      rw [hs] at hfirst
      refine iff_of_false (by simp) ?_
      rintro ⟨before, after, hsplit, hoffence, _⟩
      exact hfirst.not_offence hsplit e hoffence
    | error e' =>
      rw [hs] at hfirst
      constructor
      · rintro ⟨⟩
        exact hfirst.leftmostOffence
      · intro h
        rw [hfirst.leftmostOffence.unique h]

theorem tokenize_spec_signed :
    tokenize "2*-1/02" = .ok [.operand (.integer 2), .operator .mul, .operand (.ratio (-1) 2)] ∧
      (digitRuns "2*-1/02".toList).map (fun run => (Numeral.value run : Int)) = [2, 1, 2] ∧
      LeftmostOffence "7--x9".toList (.syntaxError (.looseMinus 2)) := by
  have htokens : tokenize "2*-1/02" =
      .ok [.operand (.integer 2), .operator .mul, .operand (.ratio (-1) 2)] := by
    decide +kernel
  have herror : tokenize "7--x9" = .error (.syntaxError (.looseMinus 2)) := by decide +kernel
  refine ⟨htokens, ?_, ((tokenize_spec "7--x9").2.2.1 _).1 herror⟩
  rw [← (tokenize_spec "2*-1/02").2.1 _ htokens]
  decide

end TargetQuiz.Expression

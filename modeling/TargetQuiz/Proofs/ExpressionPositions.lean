import TargetQuiz.Proofs.ExpressionMixed

/-! The normal form once more, by positions in the whole text; a slice that reaches outside of it
has no outcome, and no such slice is taken. -/
namespace TargetQuiz.Expression

def suffix? (cs : List Char) (start : Nat) : Option (List Char) :=
  if start ≤ cs.length then some (cs.drop start) else none

def slice? (cs : List Char) (start stop : Nat) : Option (List Char) :=
  if start ≤ stop ∧ stop ≤ cs.length then some ((cs.drop start).take (stop - start)) else none

def runLength? (p : Char → Bool) (cs : List Char) (start : Nat) : Option Nat := do
  return ((← suffix? cs start).takeWhile p).length

structure Span where
  start : Nat
  stop : Nat

def tailSpans? (cs : List Char) (start : Nat) : Option (Option (Span × Span)) := do
  let separators ← runLength? isMixedSeparator cs start
  if separators = 0 then return none
  let num := start + separators
  if cs.length ≤ num then return none
  let numLength ← runLength? Char.isDigit cs num
  if numLength = 0 then return none
  let slash := num + numLength
  if cs[slash]? ≠ some '/' then return none
  let den := slash + 1
  if cs.length ≤ den then return none
  let denLength ← runLength? Char.isDigit cs den
  if denLength = 0 then return none
  return some (⟨num, slash⟩, ⟨den, den + denLength⟩)

/-- What is written for the text at a position, and the position that is looked at next. -/
def expandAt? (cs : List Char) (i : Nat) : Option (List Char × Nat) := do
  let length ← runLength? Char.isDigit cs i
  if length = 0 then return ([← cs[i]?], i + 1)
  let stop := i + length
  let whole ← slice? cs i stop
  match ← tailSpans? cs stop with
  | some (num, den) =>
    let numerator ← slice? cs num.start num.stop
    let denominator ← slice? cs den.start den.stop
    return (sumText whole numerator denominator, den.stop)
  | none => return (whole, stop)

/-- Write the text from a position on with every mixed number as a sum. A position that does not
move on has no outcome. -/
def expandFrom? (cs : List Char) (i : Nat) : Option (List Char) :=
  if i < cs.length then
    match expandAt? cs i with
    | some (out, next) =>
      if i < next then (expandFrom? cs next).map (out ++ ·) else none
    | none => none
  else some []
termination_by cs.length - i

structure RestAt (cs : List Char) (i : Nat) (rest : List Char) : Prop where
  le : i ≤ cs.length
  drop : cs.drop i = rest

namespace RestAt

variable {cs part rest : List Char} {i : Nat}

theorem length (h : RestAt cs i rest) : cs.length = i + rest.length := by
  have hle := h.le
  rw [← h.drop, List.length_drop]
  omega

theorem append (h : RestAt cs i (part ++ rest)) : RestAt cs (i + part.length) rest where
  le := by
    have hlength := h.length
    rw [List.length_append] at hlength
    omega
  drop := by rw [← List.drop_drop, h.drop, List.drop_left]

theorem cons {c : Char} (h : RestAt cs i (c :: rest)) : RestAt cs (i + 1) rest :=
  append (by rwa [List.singleton_append])

theorem slice (h : RestAt cs i (part ++ rest)) : slice? cs i (i + part.length) = some part := by
  have hle := h.append.le
  rw [slice?, if_pos ⟨by omega, hle⟩, h.drop, Nat.add_sub_cancel_left, List.take_left]

theorem getElem (h : RestAt cs i rest) : cs[i]? = rest.head? := by
  rw [← h.drop, List.head?_drop]

theorem runLength (h : RestAt cs i rest) (p : Char → Bool) :
    runLength? p cs i = some (rest.takeWhile p).length := by
  rw [runLength?, suffix?, if_pos h.le, h.drop]
  rfl

theorem dropWhile (h : RestAt cs i rest) (p : Char → Bool) :
    RestAt cs (i + (rest.takeWhile p).length) (rest.dropWhile p) :=
  append (by rwa [List.takeWhile_append_dropWhile])

end RestAt

variable {cs rest : List Char} {i : Nat}

theorem GoesOn.tailSpans {separators num den after : List Char}
    (hgoes : GoesOn rest separators num den after) (h : RestAt cs i rest) :
    tailSpans? cs i = some (some
      (⟨i + separators.length, i + separators.length + num.length⟩,
        ⟨i + separators.length + num.length + 1,
          i + separators.length + num.length + 1 + den.length⟩)) := by
  obtain ⟨rfl, hne, hseparate, hnum, hden, hstop⟩ := hgoes
  have hnumAt := h.append
  have hslashAt := hnumAt.append
  have hdenAt := hslashAt.cons
  have hlength := hdenAt.length
  have hseparators := (takeWhile_separators hseparate (hnum.separates ('/' :: (den ++ after)))).1
  have hdigits := takeWhile_run hnum (stops_slash (den ++ after))
  have hdenDigits := takeWhile_run hden hstop
  have hnumPos := List.length_pos_iff.2 hnum.1
  have hdenPos := List.length_pos_iff.2 hden.1
  rw [List.length_append] at hlength
  simp only [tailSpans?, h.runLength, hnumAt.runLength, hdenAt.runLength, hslashAt.getElem,
    hseparators, hdigits, hdenDigits, Option.bind_eq_bind, Option.bind_some,
    List.length_eq_zero_iff, hne, hnum.1, hden.1, List.head?_cons, ne_eq, not_true_eq_false,
    if_false]
  rw [if_neg (by omega), if_neg (by omega)]
  rfl

theorem tailSpans?_of_none (h : RestAt cs i rest) (hnone : mixedTail? rest = none) :
    tailSpans? cs i = some none := by
  have hnum := h.dropWhile isMixedSeparator
  have hslash := hnum.dropWhile Char.isDigit
  have hslashAt := hslash.getElem
  simp only [tailSpans?, h.runLength, hnum.runLength, Option.bind_eq_bind, Option.bind_some]
  -- every branch but the last gives up, and the last has all that a fraction needs
  split
  · rfl
  split
  · rfl
  split
  · rfl
  rename_i hseparators _ hdigits
  split
  · rfl
  rename_i hslashIs
  obtain ⟨afterSlash, hafter⟩ : ∃ afterSlash,
      (rest.dropWhile isMixedSeparator).dropWhile Char.isDigit = '/' :: afterSlash := by
    rw [ne_eq, not_not, hslashAt] at hslashIs
    exact List.head?_eq_some_iff.1 hslashIs
  rw [hafter] at hslash
  split
  · rfl
  simp only [hslash.cons.runLength, Option.bind_some]
  split
  · rfl
  rename_i hden
  rw [List.length_eq_zero_iff] at hseparators hdigits hden
  simp [mixedTail?, hafter, hseparators, hdigits, hden] at hnone

theorem expandAt?_of_stops {c : Char} (h : RestAt cs i (c :: rest)) (hc : c.isDigit = false) :
    expandAt? cs i = some ([c], i + 1) := by
  simp [expandAt?, h.runLength, h.getElem, hc]

theorem expandAt?_of_run {digits : List Char} (h : RestAt cs i (digits ++ rest))
    (hrun : IsRun digits) (hstop : Stops rest) :
    ∃ out next after, expandAt? cs i = some (out, next) ∧ i < next ∧ RestAt cs next after ∧
      expandMixed (digits ++ rest) = out ++ expandMixed after := by
  have hpos := List.length_pos_iff.2 hrun.1
  rw [expandMixed_run hrun hstop]
  cases htail : mixedTail? rest with
  | none =>
    refine ⟨digits, i + digits.length, rest, ?_, by omega, h.append, rfl⟩
    simp [expandAt?, h.runLength, takeWhile_run hrun hstop, hrun.1, h.slice,
      tailSpans?_of_none h.append htail]
  | some parts =>
    obtain ⟨num, den, after⟩ := parts
    obtain ⟨separators, hgoes⟩ := mixedTail?_eq_some_iff.1 htail
    have hspans := hgoes.tailSpans h.append
    obtain ⟨rfl, -⟩ := hgoes
    have hnum := h.append.append
    have hden := hnum.append.cons
    refine ⟨sumText digits num den, _, after, ?_, ?_, hden.append, rfl⟩
    · simp [expandAt?, h.runLength, takeWhile_run hrun hstop, hrun.1, h.slice, hspans, hnum.slice,
        hden.slice]
    · omega

/-- One step writes what stands at its position and moves on within the text. -/
theorem expandAt?_spec (h : RestAt cs i rest) (hne : rest ≠ []) :
    ∃ out next after, expandAt? cs i = some (out, next) ∧ i < next ∧ RestAt cs next after ∧
      expandMixed rest = out ++ expandMixed after := by
  cases rest with
  | nil => exact absurd rfl hne
  | cons c rest =>
    cases hc : c.isDigit with
    | false =>
      exact ⟨[c], i + 1, rest, expandAt?_of_stops h hc, by omega, h.cons, expandMixed_cons hc rest⟩
    | true =>
      obtain ⟨digits, rest', heq, hrun, hstop⟩ := exists_run_append hc rest
      rw [heq] at h ⊢
      exact expandAt?_of_run h hrun hstop

/-- No slice is taken outside of the text, and every mixed number is found. -/
theorem expandFrom?_eq (h : RestAt cs i rest) : expandFrom? cs i = some (expandMixed rest) := by
  have hlength := h.length
  induction hn : cs.length - i using Nat.strongRecOn generalizing i rest with
  | _ n ih =>
    rw [expandFrom?]
    by_cases hne : rest = []
    · subst hne
      rw [if_neg (by simp [hlength]), expandMixed]
    · have hpos := List.length_pos_iff.2 hne
      obtain ⟨out, next, after, hstep, hlt, hafter, heq⟩ := expandAt?_spec h hne
      have hrest := ih (cs.length - next) (by omega) hafter hafter.length rfl
      rw [if_pos (by omega), hstep]
      simp only
      rw [if_pos hlt, hrest, heq]
      rfl

end TargetQuiz.Expression

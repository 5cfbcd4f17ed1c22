import TargetQuiz.Text.Numeral

/-! Normal form of answers: plain operator signs, mixed numbers such as `3 1/3` written as the sum
`3+(1/3)`, no blanks. Mixed numbers are expanded first, because only a blank marks them. -/
namespace TargetQuiz.Expression

def plainSign : Char → Char
  | '\u00d7' | '\u00b7' | '\u2219' | '\u2715' => '*'
  | '\u00f7' | '\u2215' | ':' => '/'
  | '\u2212' | '\u2013' => '-'
  | c => c

def isMixedSeparator (c : Char) : Bool := c == ' ' || c == '_'

/-- The numerator, the denominator and the rest, when the text goes on with separators, digits,
a slash and digits. -/
def mixedTail? (cs : List Char) : Option (List Char × List Char × List Char) :=
  let afterSeparators := cs.dropWhile isMixedSeparator
  let numerator := afterSeparators.takeWhile Char.isDigit
  match afterSeparators.dropWhile Char.isDigit with
  | '/' :: afterSlash =>
    let denominator := afterSlash.takeWhile Char.isDigit
    if (cs.takeWhile isMixedSeparator).isEmpty || numerator.isEmpty || denominator.isEmpty then none
    else some (numerator, denominator, afterSlash.dropWhile Char.isDigit)
  | _ => none

theorem length_dropWhile_le {α : Type _} (p : α → Bool) (xs : List α) :
    (xs.dropWhile p).length ≤ xs.length :=
  (List.dropWhile_sublist p).length_le

theorem length_of_mixedTail? {cs numerator denominator rest : List Char}
    (h : mixedTail? cs = some (numerator, denominator, rest)) : rest.length < cs.length := by
  unfold mixedTail? at h
  simp only at h
  split at h
  case h_1 afterSlash heq =>
    split at h
    · simp at h
    · simp only [Option.some.injEq, Prod.mk.injEq] at h
      obtain ⟨_, _, rfl⟩ := h
      have h₁ := length_dropWhile_le Char.isDigit afterSlash
      have h₂ := length_dropWhile_le Char.isDigit (cs.dropWhile isMixedSeparator)
      have h₃ := length_dropWhile_le isMixedSeparator cs
      rw [heq, List.length_cons] at h₂
      omega
  case h_2 => simp at h

/-- Write every mixed number as a sum. A run of digits is the whole of a mixed number or stays as
it is; what has been expanded is not looked at again. -/
def expandMixed (cs : List Char) : List Char :=
  match cs with
  | [] => []
  | c :: rest =>
    if c.isDigit then
      let whole := c :: rest.takeWhile Char.isDigit
      match _h : mixedTail? (rest.dropWhile Char.isDigit) with
      | some (numerator, denominator, after) =>
        whole ++ ['+', '('] ++ numerator ++ ['/'] ++ denominator ++ [')'] ++ expandMixed after
      | none => whole ++ expandMixed (rest.dropWhile Char.isDigit)
    else c :: expandMixed rest
termination_by cs.length
decreasing_by
  · have h₁ := length_of_mixedTail? _h
    have h₂ := length_dropWhile_le Char.isDigit rest
    simp only [List.length_cons]
    omega
  · have h₂ := length_dropWhile_le Char.isDigit rest
    simp only [List.length_cons]
    omega
  · simp

def normalChars (cs : List Char) : List Char :=
  (expandMixed (cs.map plainSign)).filter fun c => !Text.isBlank c

def normalize (s : String) : String := String.ofList (normalChars s.toList)

end TargetQuiz.Expression

import Mathlib.Algebra.Group.Nat.Defs
import Mathlib.Data.List.TakeWhile
import TargetQuiz.Text.Numeral

namespace TargetQuiz

def Digits (cs : List Char) : Prop := cs ≠ [] ∧ ∀ c ∈ cs, c.isDigit = true

namespace Numeral

theorem toNat_sub_le_of_isDigit {c : Char} (h : c.isDigit = true) : c.toNat - '0'.toNat ≤ 9 := by
  simp only [Char.isDigit, Bool.and_eq_true, decide_eq_true_eq] at h
  have hle : c.toNat ≤ 57 := UInt32.le_iff_toNat_le.1 h.2
  have hzero : '0'.toNat = 48 := rfl
  omega

theorem head?_ofNat {n : Nat} (h : 0 < n) : (ofNat n).head? ≠ some '0' := by
  unfold ofNat
  induction n using Nat.strongRecOn with
  | ind n ih =>
    rcases Nat.lt_or_ge n 10 with hlt | hge
    · rw [Nat.toDigits_of_lt_base hlt, List.head?_cons, ne_eq, Option.some.injEq]
      have hdigit : ∀ k < 10, 0 < k → k.digitChar ≠ '0' := by decide
      exact hdigit n hlt h
    · have hfirst := ih (n / 10) (by omega) (by omega)
      rw [Nat.toDigits_of_base_le (by decide) hge]
      cases hd : Nat.toDigits 10 (n / 10) with
      | nil => exact absurd hd Nat.toDigits_ne_nil
      | cons c cs =>
        rw [hd] at hfirst
        exact hfirst

theorem pow_length_le {n : Nat} (h : 0 < n) : 10 ^ ((ofNat n).length - 1) ≤ n := by
  rcases Nat.eq_zero_or_pos ((ofNat n).length - 1) with hone | hmore
  · rw [hone]
    exact h
  · refine Nat.le_of_not_lt fun hlt => ?_
    have hle : (ofNat n).length ≤ (ofNat n).length - 1 :=
      (Nat.length_toDigits_le_iff (by decide) hmore).2 hlt
    omega

theorem value_padded (width n : Nat) : value (padded width n) = n := by
  have hzeros : ∀ k, Nat.ofDigitChars 10 (List.replicate k '0') 0 = 0 := by
    intro k
    induction k with
    | zero => rfl
    | succ k ih => exact ih
  rw [value, padded, Nat.ofDigitChars_append, hzeros]
  exact value_ofNat n

theorem length_padded {width n : Nat} (hwidth : 0 < width) (h : n < 10 ^ width) :
    (padded width n).length = width := by
  have hle : (ofNat n).length ≤ width := (Nat.length_toDigits_le_iff (by decide) hwidth).2 h
  rw [padded, List.length_append, List.length_replicate]
  omega

/-- The last digit is the remainder by ten. -/
theorem exists_padded_eq_concat (width n : Nat) :
    ∃ cs, padded width n = cs ++ [(n % 10).digitChar] := by
  have hlast : ∃ cs, ofNat n = cs ++ [(n % 10).digitChar] := by
    unfold ofNat
    rcases Nat.lt_or_ge n 10 with hlt | hge
    · exact ⟨[], by rw [Nat.toDigits_of_lt_base hlt, Nat.mod_eq_of_lt hlt, List.nil_append]⟩
    · exact ⟨_, Nat.toDigits_of_base_le (by decide) hge⟩
  obtain ⟨cs, hcs⟩ := hlast
  exact ⟨List.replicate (width - (ofNat n).length) '0' ++ cs, by
    rw [padded, hcs, List.append_assoc]⟩

theorem mem_ofInt {z : Int} {c : Char} (h : c ∈ ofInt z) : c = '-' ∨ c.isDigit = true := by
  unfold ofInt at h
  split at h
  · exact (List.mem_cons.1 h).imp_right isDigit_of_mem_ofNat
  · exact .inr (isDigit_of_mem_ofNat h)

theorem not_mem_ofInt {c : Char} (z : Int) (hsign : c ≠ '-') (hdigit : c.isDigit = false) :
    c ∉ ofInt z := by
  intro hmem
  rcases mem_ofInt hmem with hc | hc
  · exact hsign hc
  · rw [hdigit] at hc
    contradiction

inductive Denotes : List Char → Int → Prop
  | plain {digits : List Char} (h : Digits digits) : Denotes digits (value digits)
  | plus {digits : List Char} (h : Digits digits) : Denotes ('+' :: digits) (value digits)
  | minus {digits : List Char} (h : Digits digits) : Denotes ('-' :: digits) (-value digits)

theorem Denotes.mem {cs : List Char} {z : Int} (h : Denotes cs z) :
    ∀ c ∈ cs, c = '+' ∨ c = '-' ∨ c.isDigit = true := by
  intro c hc
  cases h with
  | plain h => exact .inr (.inr (h.2 c hc))
  | plus h => exact (List.mem_cons.1 hc).imp_right fun hmem => .inr (h.2 c hmem)
  | minus h => exact .inr ((List.mem_cons.1 hc).imp_right (h.2 c))

theorem digits?_eq_some_iff {cs : List Char} {n : Nat} :
    digits? cs = some n ↔ Digits cs ∧ value cs = n := by
  simp [digits?, Digits, List.all_eq_true]

theorem int?_eq_some_iff {cs : List Char} {z : Int} : int? cs = some z ↔ Denotes cs z := by
  constructor
  · intro h
    unfold int? at h
    split at h
    all_goals
      rw [Option.map_eq_some_iff] at h
      obtain ⟨n, hn, rfl⟩ := h
      obtain ⟨hdigits, rfl⟩ := digits?_eq_some_iff.1 hn
    · exact .plus hdigits
    · rw [Int.negOfNat_eq]
      exact .minus hdigits
    · exact .plain hdigits
  · intro h
    cases h with
    | plain h =>
      obtain ⟨hne, hall⟩ := h
      cases cs with
      | nil => exact absurd rfl hne
      | cons c cs =>
        rw [int?_of_isDigit cs (hall c List.mem_cons_self), digits?_eq_some_iff.2 ⟨⟨hne, hall⟩, rfl⟩]
        rfl
    | plus h => exact Option.map_eq_some_iff.2 ⟨_, digits?_eq_some_iff.2 ⟨h, rfl⟩, rfl⟩
    | minus h =>
      exact Option.map_eq_some_iff.2 ⟨_, digits?_eq_some_iff.2 ⟨h, rfl⟩, Int.negOfNat_eq⟩

theorem head?_ne_minus {cs : List Char} (h : Digits cs) : cs.head? ≠ some '-' := by
  intro hhead
  obtain ⟨rest, rfl⟩ := List.head?_eq_some_iff.1 hhead
  exact absurd (h.2 '-' List.mem_cons_self) (by decide)

theorem nat?_of_digits {cs : List Char} (h : Digits cs) : nat? cs = digits? cs := by
  unfold nat?
  split
  · exact absurd (h.2 '+' List.mem_cons_self) (by decide)
  · rfl

/-- An unsigned numeral has no minus sign, not even before zero. -/
theorem nat?_eq_some_iff {cs : List Char} {n : Nat} :
    nat? cs = some n ↔ Denotes cs n ∧ cs.head? ≠ some '-' := by
  constructor
  · intro h
    unfold nat? at h
    split at h
    all_goals obtain ⟨hdigits, rfl⟩ := digits?_eq_some_iff.1 h
    · exact ⟨.plus hdigits, by simp⟩
    · exact ⟨.plain hdigits, head?_ne_minus hdigits⟩
  · rintro ⟨h, hsign⟩
    generalize hz : (n : Int) = z at h
    cases h with
    | plain h =>
      rw [nat?_of_digits h]
      exact digits?_eq_some_iff.2 ⟨h, by omega⟩
    | plus h => exact digits?_eq_some_iff.2 ⟨h, by omega⟩
    | minus h => simp at hsign

end Numeral

namespace Digits

variable {cs : List Char} {k : Nat}

theorem ofNat (n : Nat) : Digits (Numeral.ofNat n) :=
  ⟨Numeral.ofNat_ne_nil n, fun _ => Numeral.isDigit_of_mem_ofNat⟩

theorem isDigit_zeros : ∀ c ∈ List.replicate k '0', c.isDigit = true := by
  intro c hc
  rw [List.eq_of_mem_replicate hc]
  rfl

theorem append_zeros (h : Digits cs) : Digits (cs ++ List.replicate k '0') :=
  ⟨by simp [h.1], fun c hc => (List.mem_append.1 hc).elim (h.2 c) (isDigit_zeros c)⟩

theorem zeros_append (h : Digits cs) : Digits (List.replicate k '0' ++ cs) :=
  ⟨by simp [h.1], fun c hc => (List.mem_append.1 hc).elim (isDigit_zeros c) (h.2 c)⟩

theorem padded (width n : Nat) : Digits (Numeral.padded width n) := (ofNat n).zeros_append

theorem take (h : Digits cs) (hk : 0 < k) : Digits (cs.take k) := by
  refine ⟨?_, fun c hc => h.2 c (List.mem_of_mem_take hc)⟩
  simp [List.take_eq_nil_iff, h.1, Nat.ne_of_gt hk]

theorem drop (h : Digits cs) (hk : k < cs.length) : Digits (cs.drop k) := by
  refine ⟨?_, fun c hc => h.2 c (List.mem_of_mem_drop hc)⟩
  rw [ne_eq, List.drop_eq_nil_iff]
  omega

end Digits

namespace Text

def Padded (text cs : List Char) : Prop :=
  ∃ before after, (∀ c ∈ before, isBlank c = true) ∧ (∀ c ∈ after, isBlank c = true) ∧
    cs = before ++ text ++ after

theorem Padded.refl (text : List Char) : Padded text text :=
  ⟨[], [], by simp, by simp, by simp⟩

theorem Padded.prepend {text cs blanks : List Char} (h : Padded text cs)
    (hblanks : ∀ c ∈ blanks, isBlank c = true) : Padded text (blanks ++ cs) := by
  obtain ⟨before, after, hbefore, hafter, rfl⟩ := h
  exact ⟨blanks ++ before, after, fun c hc => (List.mem_append.1 hc).elim (hblanks c) (hbefore c),
    hafter, by simp⟩

theorem Padded.append {text cs blanks : List Char} (h : Padded text cs)
    (hblanks : ∀ c ∈ blanks, isBlank c = true) : Padded text (cs ++ blanks) := by
  obtain ⟨before, after, hbefore, hafter, rfl⟩ := h
  exact ⟨before, after ++ blanks, hbefore,
    fun c hc => (List.mem_append.1 hc).elim (hafter c) (hblanks c), by simp⟩

theorem Padded.mem {text cs : List Char} (h : Padded text cs) :
    ∀ c ∈ cs, isBlank c = true ∨ c ∈ text := by
  obtain ⟨before, after, hbefore, hafter, rfl⟩ := h
  intro c hc
  rcases List.mem_append.1 hc with hc | hc
  · exact (List.mem_append.1 hc).imp_left (hbefore c)
  · exact .inl (hafter c hc)

theorem dropWhile_isBlank {cs : List Char} (h : ∀ c ∈ cs, isBlank c = false) :
    cs.dropWhile isBlank = cs := by
  cases cs with
  | nil => rfl
  | cons c cs => simp [h c]

theorem trimRight_append {cs blanks : List Char} (h : ∀ c ∈ blanks, isBlank c = true) :
    trimRight (cs ++ blanks) = trimRight cs := by
  have hreverse : ∀ c ∈ blanks.reverse, isBlank c = true := fun c hc => h c (List.mem_reverse.1 hc)
  rw [trimRight, trimRight, List.reverse_append, List.dropWhile_append_of_pos hreverse]

theorem padded_trim (cs : List Char) : Padded (trim cs) cs := by
  refine ⟨cs.takeWhile isBlank, ((trimLeft cs).reverse.takeWhile isBlank).reverse, ?_, ?_, ?_⟩
  · exact List.all_eq_true.1 List.all_takeWhile
  · intro c hc
    exact List.all_eq_true.1 List.all_takeWhile c (List.mem_reverse.1 hc)
  · rw [trim, trimRight, List.append_assoc, ← List.reverse_append,
      List.takeWhile_append_dropWhile, List.reverse_reverse]
    exact List.takeWhile_append_dropWhile.symm

/-- A text with no blank in it is what is left of it with blanks around it. -/
theorem trim_eq_iff {text cs : List Char} (h : ∀ c ∈ text, isBlank c = false) :
    trim cs = text ↔ Padded text cs := by
  refine ⟨fun htrim => htrim ▸ padded_trim cs, ?_⟩
  rintro ⟨before, after, hbefore, hafter, rfl⟩
  have hreverse : ∀ c ∈ text.reverse, isBlank c = false := fun c hc => h c (List.mem_reverse.1 hc)
  have hright : trimRight text = text := by
    rw [trimRight, dropWhile_isBlank hreverse, List.reverse_reverse]
  rw [trim, trimLeft, List.append_assoc, List.dropWhile_append_of_pos hbefore]
  cases text with
  | nil =>
    rw [List.nil_append, List.dropWhile_eq_nil_iff.2 hafter]
    rfl
  | cons c text =>
    rw [List.cons_append, List.dropWhile_cons, h c List.mem_cons_self]
    exact (trimRight_append hafter).trans hright

end Text

theorem Numeral.Denotes.trim_eq {text cs : List Char} {z : Int} (h : Denotes text z)
    (hpadded : Text.Padded text cs) : Text.trim cs = text := by
  refine (Text.trim_eq_iff fun c hc => ?_).2 hpadded
  rcases h.mem c hc with rfl | rfl | hdigit
  · rfl
  · rfl
  · exact Text.isBlank_of_isDigit hdigit

end TargetQuiz

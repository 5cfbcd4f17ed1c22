import Mathlib.Data.List.Induction
import TargetQuiz.Proofs.ExpressionAcceptance

namespace TargetQuiz.Expression

section Excess

variable {α : Type} [BEq α] [LawfulBEq α] {typed offer : List α} {a b : α}

/-- The first element, in reading order, that is typed more often than it is offered. -/
def FirstExcess (typed offer : List α) (a : α) : Prop :=
  ∃ before after, typed = before ++ a :: after ∧ offer.count a < (before ++ [a]).count a ∧
    ∀ b, before.count b ≤ offer.count b

theorem count_cons_le_iff (hb : b ∈ offer) (xs : List α) (d : α) :
    (b :: xs).count d ≤ offer.count d ↔ xs.count d ≤ (offer.erase b).count d := by
  rw [(List.perm_cons_erase hb).count_eq, List.count_cons, List.count_cons,
    Nat.add_le_add_iff_right]

theorem firstExcess_cons_of_mem (hb : b ∈ offer) :
    FirstExcess (b :: typed) offer a ↔ FirstExcess typed (offer.erase b) a := by
  constructor
  · rintro ⟨before, after, heq, hexcess, hbefore⟩
    cases before with
    | nil =>
      obtain ⟨rfl, rfl⟩ := List.cons_eq_cons.1 heq
      have hpos := List.count_pos_iff.2 hb
      simp at hexcess
      omega
    | cons c before =>
      obtain ⟨rfl, rfl⟩ := List.cons_eq_cons.1 heq
      refine ⟨before, after, rfl, ?_, fun d => (count_cons_le_iff hb before d).1 (hbefore d)⟩
      rwa [← Nat.not_le, ← count_cons_le_iff hb, Nat.not_le]
  · rintro ⟨before, after, rfl, hexcess, hbefore⟩
    refine ⟨b :: before, after, rfl, ?_, fun d => (count_cons_le_iff hb before d).2 (hbefore d)⟩
    rwa [← Nat.not_le, List.cons_append, count_cons_le_iff hb, Nat.not_le]

theorem firstExcess_cons_of_not_mem (hb : b ∉ offer) :
    FirstExcess (b :: typed) offer a ↔ a = b := by
  have hzero := List.count_eq_zero.2 hb
  constructor
  · rintro ⟨before, after, heq, -, hbefore⟩
    cases before with
    | nil => exact (List.cons_eq_cons.1 heq).1.symm
    | cons c before =>
      obtain ⟨rfl, -⟩ := List.cons_eq_cons.1 heq
      have hmore := hbefore b
      simp [hzero] at hmore
  · rintro rfl
    exact ⟨[], typed, rfl, by simp [hzero], by simp⟩

end Excess

theorem takeTyped_eq_error_iff {typed available : List Int64} {e : EvalError} :
    takeTyped available typed = .error e ↔
      ∃ n, e = .numberNotAllowed n ∧ FirstExcess typed available n := by
  induction typed generalizing available with
  | nil => simp [takeTyped, FirstExcess]
  | cons n typed ih =>
    by_cases hn : n ∈ available
    · simp [takeTyped, hn, ih, firstExcess_cons_of_mem hn]
    · simp [takeTyped, hn, firstExcess_cons_of_not_mem hn, eq_comm]

theorem takeTyped_perm {typed available rearranged : List Int64}
    (h : rearranged.Perm available) : takeTyped rearranged typed = takeTyped available typed := by
  induction typed generalizing available rearranged with
  | nil => rfl
  | cons n typed ih => simp [takeTyped, h.mem_iff, ih (h.erase n)]

/-- Take the element at a place out; the last one moves into the gap. -/
def swapRemove {α : Type} (xs : List α) (i : Nat) : List α :=
  match xs.getLast? with
  | some last => (xs.set i last).dropLast
  | none => []

theorem swapRemove_perm {α : Type} {xs : List α} {i : Nat} {a : α} (h : xs[i]? = some a) :
    (a :: swapRemove xs i).Perm xs := by
  induction xs using List.reverseRecOn with
  | nil => simp at h
  | append_singleton front last _ =>
    have hparts : (front ++ [last]).set i last = front.set i last ++ [last] ∧
        front[i]?.getD last = a := by
      rcases Nat.lt_or_ge i front.length with hin | hout
      · rw [List.getElem?_append_left hin] at h
        exact ⟨List.set_append_left _ _ hin, by simp [h]⟩
      · obtain ⟨hlt, -⟩ := List.getElem?_eq_some_iff.1 h
        rw [List.length_append, List.length_singleton] at hlt
        obtain rfl : i = front.length := by omega
        simpa [List.set_eq_of_length_le] using h
    have hmoved : swapRemove (front ++ [last]) i = front.set i last := by
      simp [swapRemove, hparts.1]
    rw [hmoved, ← hparts.2]
    exact (front.getD_set_perm_cons i last).trans (List.perm_append_singleton last front).symm

def takeSwapping (available : List Int64) : List Int64 → Except EvalError Unit
  | [] => .ok ()
  | n :: rest =>
    match available.findIdx? (· == n) with
    | some i => takeSwapping (swapRemove available i) rest
    | none => .error (.numberNotAllowed n)

theorem takeSwapping_eq (typed available : List Int64) :
    takeSwapping available typed = takeTyped available typed := by
  induction typed generalizing available with
  | nil => rfl
  | cons n typed ih =>
    rw [takeSwapping, takeTyped]
    cases hplace : available.findIdx? (· == n) with
    | none =>
      have hn : n ∉ available := by
        intro hn
        simpa using List.findIdx?_eq_none_iff.1 hplace n hn
      simp [hn]
    | some i =>
      obtain ⟨hlt, hi, -⟩ := List.findIdx?_eq_some_iff_getElem.1 hplace
      obtain rfl := eq_of_beq hi
      have hperm : (available[i] :: swapRemove available i).Perm available :=
        swapRemove_perm (List.getElem?_eq_getElem hlt)
      have hrest := hperm.erase available[i]
      simp only [List.erase_cons_head] at hrest
      simp [ih, takeTyped_perm hrest]

/-- The check looks at multisets only. It passes when every number is typed at most as often as it
is offered, and otherwise reports the first number that is typed once too often, however the offer
is ordered and however numbers are taken out of it. So a larger offer keeps every value. -/
theorem offer_inclusion {tokens : List Token}
    (hmin : ∀ o ∈ operandsOf tokens, ∀ n ∈ o.parts, Int64.minValue < n) (allowed : List Int64) :
    (typedNumbers tokens).map Int64.toInt = magnitudes (operandsOf tokens) ∧
    (checkOffer tokens allowed = .ok () ↔
      ∀ n, (typedNumbers tokens).count n ≤ allowed.count n) ∧
    (∀ e, checkOffer tokens allowed = .error e ↔
      ∃ n, e = .numberNotAllowed n ∧ FirstExcess (typedNumbers tokens) allowed n) ∧
    takeSwapping allowed (typedNumbers tokens) = checkOffer tokens allowed ∧
    (∀ rearranged : List Int64, rearranged.Perm allowed →
      checkOffer tokens rearranged = checkOffer tokens allowed) ∧
    ∀ (answer : String) (larger : List Int64) (value : Fraction), allowed.Subperm larger →
      evaluate answer allowed = .ok value → evaluate answer larger = .ok value := by
  have hcount : (typedNumbers tokens).Subperm allowed ↔
      ∀ n, (typedNumbers tokens).count n ≤ allowed.count n := by
    refine List.subperm_ext_iff.trans ⟨fun h n => ?_, fun h n _ => h n⟩
    by_cases hn : n ∈ typedNumbers tokens
    · exact h n hn
    · simp [List.count_eq_zero.2 hn]
  exact ⟨map_toInt_typedNumbers hmin, checkOffer_eq_ok_iff.trans hcount,
    fun e => takeTyped_eq_error_iff, takeSwapping_eq _ _, fun rearranged h => takeTyped_perm h,
    fun answer larger value hlarger h => evaluate_mono h hlarger⟩

theorem offer_inclusion_repeated :
    (∀ o ∈ operandsOf [.operand (.ratio (-3) 7), .operator .add, .operand (.integer 7)],
      ∀ n ∈ o.parts, Int64.minValue < n) ∧
    checkOffer [.operand (.ratio (-3) 7), .operator .add, .operand (.integer 7)] [7, 3, 9] =
      .error (.numberNotAllowed 7) ∧
    FirstExcess [3, 7, 7] [7, 3, 9] (7 : Int64) ∧
    takeSwapping [7, 3, 9] [3, 7, 7] = .error (.numberNotAllowed 7) := by
  have hmin : ∀ o ∈ operandsOf [.operand (.ratio (-3) 7), .operator .add, .operand (.integer 7)],
      ∀ n ∈ o.parts, Int64.minValue < n := by
    simp [operandsOf, Token.operand?, Operand.parts]
    decide
  have htyped : typedNumbers
      [.operand (.ratio (-3) 7), .operator .add, .operand (.integer 7)] = [3, 7, 7] := by decide
  have hrefused : checkOffer [.operand (.ratio (-3) 7), .operator .add, .operand (.integer 7)]
      [7, 3, 9] = .error (.numberNotAllowed 7) := rfl
  obtain ⟨-, -, herror, hswapping, -⟩ := offer_inclusion hmin [7, 3, 9]
  obtain ⟨n, hn, hfirst⟩ := (herror _).1 hrefused
  cases hn
  rw [htyped] at hfirst hswapping
  exact ⟨hmin, hrefused, hfirst, hswapping.trans hrefused⟩

end TargetQuiz.Expression

import Mathlib.Data.Fintype.Pigeonhole
import Mathlib.Data.Nat.Find
import TargetQuiz.Proofs.RandomCycle
import TargetQuiz.Proofs.RandomRange

/-! The bound of a repeated draw changes nothing: whatever is accepted at all is accepted before a
state comes back. -/
namespace TargetQuiz.Generator

section Repeated

variable {α : Type} {draw : Generator → α × Generator} {accepted : α → Bool} {g : Generator}

def afterDraws (draw : Generator → α × Generator) (k : Nat) (g : Generator) : Generator :=
  (fun g => (draw g).2)^[k] g

/-- The draws are refused up to number `k`, counted from zero, which is accepted. -/
structure FirstAccepted (draw : Generator → α × Generator) (accepted : α → Bool) (g : Generator)
    (k : Nat) : Prop where
  refused : ∀ i, i < k → accepted (draw (afterDraws draw i g)).1 = false
  accepted : accepted (draw (afterDraws draw k g)).1 = true

theorem afterDraws_succ (k : Nat) : afterDraws draw (k + 1) g = afterDraws draw k (draw g).2 := rfl

theorem afterDraws_add (i j : Nat) :
    afterDraws draw (i + j) g = afterDraws draw i (afterDraws draw j g) :=
  Function.iterate_add_apply _ i j g

theorem exists_firstAccepted {k : Nat} (h : accepted (draw (afterDraws draw k g)).1 = true) :
    ∃ k, FirstAccepted draw accepted g k := by
  have hsome : ∃ k, accepted (draw (afterDraws draw k g)).1 = true := ⟨k, h⟩
  exact ⟨Nat.find hsome, fun i hi => Bool.eq_false_iff.2 (Nat.find_min hsome hi),
    Nat.find_spec hsome⟩

/-- Up to the accepted one, the draws start from different states. -/
theorem FirstAccepted.lt_stateCount {k : Nat} (h : FirstAccepted draw accepted g k) :
    k < stateCount := by
  by_contra hle
  have hcard : Fintype.card Generator < Fintype.card (Fin (k + 1)) := by
    rw [card_generator, Fintype.card_fin]
    omega
  obtain ⟨i, j, hne, heq⟩ := Fintype.exists_ne_map_eq_of_card_lt
    (fun i : Fin (k + 1) => afterDraws draw i g) hcard
  -- a state that comes back is followed by the same draws again
  have hback : ∀ i j : Nat, i < j → j ≤ k → afterDraws draw i g = afterDraws draw j g → False := by
    intro i j hij hjk heq
    have hearlier : k - j + i < k := by omega
    have hsame : afterDraws draw (k - j + i) g = afterDraws draw k g := by
      rw [afterDraws_add, heq, ← afterDraws_add, Nat.sub_add_cancel hjk]
    have hrefused := h.refused _ hearlier
    rw [hsame, h.accepted] at hrefused
    exact Bool.noConfusion hrefused
  rcases Nat.lt_or_gt_of_ne (Fin.val_ne_of_ne hne) with hij | hji
  · exact hback i j hij (Nat.le_of_lt_succ j.isLt) heq
  · exact hback j i hji (Nat.le_of_lt_succ i.isLt) heq.symm

theorem drawWithin_of_firstAccepted {k limit : Nat} (h : FirstAccepted draw accepted g k)
    (hk : k < limit) : drawWithin draw accepted limit g = some (draw (afterDraws draw k g)) := by
  induction k generalizing g limit with
  | zero =>
    obtain ⟨limit, rfl⟩ := Nat.exists_eq_succ_of_ne_zero (Nat.ne_of_gt hk)
    exact if_pos h.accepted
  | succ k ih =>
    obtain ⟨limit, rfl⟩ := Nat.exists_eq_succ_of_ne_zero (Nat.ne_of_gt (Nat.zero_lt_of_lt hk))
    have hnow : ¬accepted (draw g).1 = true := Bool.eq_false_iff.1 (h.refused 0 (Nat.succ_pos k))
    have hlater : FirstAccepted draw accepted (draw g).2 k :=
      ⟨fun i hi => h.refused (i + 1) (Nat.succ_lt_succ hi), h.accepted⟩
    rw [drawWithin]
    dsimp only
    rw [if_neg hnow, ih hlater (Nat.lt_of_succ_lt_succ hk), afterDraws_succ]

theorem drawWithin_eq_none (h : ∀ k, accepted (draw (afterDraws draw k g)).1 = false)
    (limit : Nat) : drawWithin draw accepted limit g = none := by
  induction limit generalizing g with
  | zero => rfl
  | succ limit ih =>
    have hnow : ¬accepted (draw g).1 = true := Bool.eq_false_iff.1 (h 0)
    rw [drawWithin]
    dsimp only
    rw [if_neg hnow]
    exact ih fun k => h (k + 1)

/-- A repeated draw has the first accepted value as its result, however late it comes. -/
theorem drawUntil_eq_some_iff {r : α × Generator} :
    drawUntil draw accepted g = some r ↔
      ∃ k, FirstAccepted draw accepted g k ∧ draw (afterDraws draw k g) = r := by
  constructor
  · intro h
    by_cases hsome : ∃ k, accepted (draw (afterDraws draw k g)).1 = true
    · obtain ⟨k, hk⟩ := exists_firstAccepted hsome.choose_spec
      rw [drawUntil, drawWithin_of_firstAccepted hk hk.lt_stateCount] at h
      exact ⟨k, hk, Option.some.inj h⟩
    · rw [drawUntil, drawWithin_eq_none (by simpa using hsome)] at h
      cases h
  · rintro ⟨k, hk, rfl⟩
    exact drawWithin_of_firstAccepted hk hk.lt_stateCount

/-- A repeated draw has no result exactly when all its values are refused. -/
theorem drawUntil_eq_none_iff :
    drawUntil draw accepted g = none ↔ ∀ k, accepted (draw (afterDraws draw k g)).1 = false := by
  constructor
  · intro h k
    by_contra haccepted
    obtain ⟨i, hi⟩ := exists_firstAccepted (Bool.eq_true_of_not_eq_false haccepted)
    rw [drawUntil_eq_some_iff.2 ⟨i, hi, rfl⟩] at h
    cases h
  · exact fun h => drawWithin_eq_none h stateCount

end Repeated

/-- A range with more than one number, and not all of them, takes a step for each draw. -/
theorem afterDraws_between {lo hi : Int64} (hlt : lo < hi) (hlo : lo ≠ Int64.minValue) (k : Nat)
    (g : Generator) : afterDraws (between lo hi) k g = step^[k] g := by
  have hstep : (fun g => (between lo hi g).2) = step := by
    funext g
    exact between_snd_eq_step hlt (fun hall => hlo hall.1) g
  rw [afterDraws, hstep]

/-- A live generator draws every value from a range that some live state gives. -/
theorem exists_firstAccepted_between {lo hi : Int64} (hlt : lo < hi) (hlo : lo ≠ Int64.minValue)
    (accepted : Int64 → Bool) {g h : Generator} (hg : g ≠ dead) (hh : h ≠ dead)
    (haccepted : accepted (h.between lo hi).1 = true) :
    ∃ k, FirstAccepted (between lo hi) accepted g k := by
  obtain ⟨k, rfl⟩ := exists_iterate_step hg hh
  refine exists_firstAccepted (k := k) ?_
  rw [afterDraws_between hlt hlo]
  exact haccepted

end TargetQuiz.Generator

import Mathlib.Algebra.Order.Field.Basic
import Mathlib.Data.Rat.Cast.Order
import Mathlib.Tactic.Linarith
import TargetQuiz.Settings

/-! Easy and medium rounds are rounded each on their own, so both together may exceed the total.
Medium rounds give way then, by no more than the half that rounding takes anyway. -/
namespace TargetQuiz

namespace Schedule

def difference? (a b : Nat) : Option Nat := if b ≤ a then some (a - b) else none

def share? (total : UInt64) (percent : UInt32) : Option Nat := do
  let product ← Word.uint64? (total.toNat * min percent.toNat 100)
  let raised ← Word.uint64? (product.toNat + 50)
  return raised.toNat / 100

/-- The schedule, if no step on the way to it leaves the words. -/
def tiers? (total : UInt64) (easyPercent mediumPercent : UInt32) : Option (List Tier) := do
  let easy := min (← share? total easyPercent) total.toNat
  let medium := min (← share? total mediumPercent) (← difference? total.toNat easy)
  let hard ← difference? (← difference? total.toNat easy) medium
  return List.replicate easy .easy ++ List.replicate medium .medium ++ List.replicate hard .hard

theorem share?_eq_share {total : UInt64} (htotal : 100 * total.toNat + 50 < UInt64.size)
    (percent : UInt32) : share? total percent = some (share total.toNat percent.toNat) := by
  have hle : total.toNat * min percent.toNat 100 ≤ total.toNat * 100 :=
    Nat.mul_le_mul_left _ (Nat.min_le_right _ _)
  obtain ⟨product, hproduct⟩ := Word.exists_uint64? (n := total.toNat * min percent.toNat 100)
    (by omega)
  obtain ⟨raised, hraised⟩ := Word.exists_uint64?
    (n := total.toNat * min percent.toNat 100 + 50) (by omega)
  simp [share?, hproduct, Word.uint64?_eq_some_iff.1 hproduct, hraised,
    Word.uint64?_eq_some_iff.1 hraised, share]

theorem tiers?_eq_tiers {total : UInt64} (htotal : 100 * total.toNat + 50 < UInt64.size)
    (easyPercent mediumPercent : UInt32) :
    tiers? total easyPercent mediumPercent =
      some (tiers total.toNat easyPercent.toNat mediumPercent.toNat) := by
  simp [tiers?, share?_eq_share htotal, difference?, tiers]

theorem length_tiers (total easyPercent mediumPercent : Nat) :
    (tiers total easyPercent mediumPercent).length = total := by
  simp only [tiers, List.length_append, List.length_replicate]
  omega

theorem pairwise_tiers (total easyPercent mediumPercent : Nat) :
    (tiers total easyPercent mediumPercent).Pairwise fun a b => a.level ≤ b.level := by
  have hsame : ∀ (n : Nat) (t : Tier), (List.replicate n t).Pairwise fun a b => a.level ≤ b.level :=
    fun n t => List.pairwise_replicate.2 (.inr UInt8.le_rfl)
  rw [tiers, List.pairwise_append, List.pairwise_append]
  refine ⟨⟨hsame _ _, hsame _ _, ?_⟩, hsame _ _, ?_⟩
  · intro a ha b hb
    rw [List.eq_of_mem_replicate ha, List.eq_of_mem_replicate hb]
    decide
  · intro a ha b hb
    rw [List.eq_of_mem_replicate hb]
    cases a <;> decide

/-- The counts of the tiers are near their exact shares of the total. -/
structure Proportionate (total easyPercent mediumPercent : Nat) (plan : List Tier) : Prop where
  easy : |(plan.count .easy : ℚ) - total * easyPercent / 100| ≤ 1 / 2
  medium : |(plan.count .medium : ℚ) - total * mediumPercent / 100| ≤ 1 / 2
  hard : |(plan.count .hard : ℚ) - total * (100 - easyPercent - mediumPercent) / 100| ≤ 1
  no_hard : easyPercent + mediumPercent = 100 → plan.count .hard = 0

theorem share_bounds (total : Nat) {percent : Nat} (h : percent ≤ 100) :
    100 * share total percent ≤ total * percent + 50 ∧
      total * percent < 100 * share total percent + 50 := by
  rw [share, Nat.min_eq_left h]
  omega

theorem count_easy_tiers (total easyPercent mediumPercent : Nat) :
    (tiers total easyPercent mediumPercent).count .easy = min (share total easyPercent) total := by
  simp [tiers, List.count_replicate]

theorem count_medium_tiers (total easyPercent mediumPercent : Nat) :
    (tiers total easyPercent mediumPercent).count .medium =
      min (share total mediumPercent) (total - min (share total easyPercent) total) := by
  simp [tiers, List.count_replicate]

theorem count_hard_tiers (total easyPercent mediumPercent : Nat) :
    (tiers total easyPercent mediumPercent).count .hard =
      total - (tiers total easyPercent mediumPercent).count .easy -
        (tiers total easyPercent mediumPercent).count .medium := by
  rw [count_easy_tiers, count_medium_tiers]
  simp [tiers, List.count_replicate]

/-- A count that is near a product in hundredths is near the product over one hundred. -/
theorem abs_sub_div_le {count total percent : Nat} (hle : 100 * count ≤ total * percent + 50)
    (hge : total * percent ≤ 100 * count + 50) :
    |(count : ℚ) - total * percent / 100| ≤ 1 / 2 := by
  have hle : (100 * count : ℚ) ≤ total * percent + 50 := by exact_mod_cast hle
  have hge : (total * percent : ℚ) ≤ 100 * count + 50 := by exact_mod_cast hge
  rw [abs_le]
  constructor
  · linarith
  · linarith

theorem proportionate_tiers {easyPercent mediumPercent : Nat} (total : Nat)
    (hshares : easyPercent + mediumPercent ≤ 100) :
    Proportionate total easyPercent mediumPercent (tiers total easyPercent mediumPercent) := by
  have heasyShare : easyPercent ≤ 100 := Nat.le_of_add_right_le hshares
  have hmediumShare : mediumPercent ≤ 100 := Nat.le_of_add_left_le hshares
  obtain ⟨heasyLe, heasyLt⟩ := share_bounds total heasyShare
  obtain ⟨hmediumLe, hmediumLt⟩ := share_bounds total hmediumShare
  have hwhole : total * easyPercent + total * mediumPercent ≤ total * 100 := by
    rw [← Nat.mul_add]
    exact Nat.mul_le_mul_left _ hshares
  have hcountEasy := count_easy_tiers total easyPercent mediumPercent
  have hcountMedium := count_medium_tiers total easyPercent mediumPercent
  have hcountHard := count_hard_tiers total easyPercent mediumPercent
  have heasy : |((tiers total easyPercent mediumPercent).count .easy : ℚ) -
      total * easyPercent / 100| ≤ 1 / 2 := abs_sub_div_le (by omega) (by omega)
  -- what is left for medium rounds is less than their share by at most the half of the easy ones
  have hmedium : |((tiers total easyPercent mediumPercent).count .medium : ℚ) -
      total * mediumPercent / 100| ≤ 1 / 2 := abs_sub_div_le (by omega) (by omega)
  have hsum : ((tiers total easyPercent mediumPercent).count .easy : ℚ) +
      (tiers total easyPercent mediumPercent).count .medium +
      (tiers total easyPercent mediumPercent).count .hard = total := by
    have hsum : (tiers total easyPercent mediumPercent).count .easy +
        (tiers total easyPercent mediumPercent).count .medium +
        (tiers total easyPercent mediumPercent).count .hard = total := by omega
    exact_mod_cast hsum
  refine ⟨heasy, hmedium, ?_, ?_⟩
  · rw [abs_le] at heasy hmedium ⊢
    constructor
    · linarith
    · linarith
  · intro hcomplete
    have hall : total * easyPercent + total * mediumPercent = total * 100 := by
      rw [← Nat.mul_add, hcomplete]
    omega

end Schedule

theorem Settings.validate_eq_ok_iff {s t : Settings} :
    s.validate = .ok t ↔ s = t ∧ s.easyPercent.toNat + s.mediumPercent.toNat ≤ 100 := by
  rw [Settings.validate]
  split
  · simp only [reduceCtorEq, false_iff]
    omega
  · rw [Except.ok.injEq]
    exact ⟨fun heq => ⟨heq, by omega⟩, And.left⟩

namespace Schedule

/-- A schedule is computed without leaving the words, it has a round for each question, and easier
rounds come first. When the shares fit the whole, as those of accepted settings do, each tier has
its share up to rounding, and there are no hard rounds when nothing is left for them. -/
theorem tiers_proportionate {total : UInt64} (htotal : 100 * total.toNat + 50 < UInt64.size)
    (easyPercent mediumPercent : UInt32) :
    tiers? total easyPercent mediumPercent =
        some (tiers total.toNat easyPercent.toNat mediumPercent.toNat) ∧
      (tiers total.toNat easyPercent.toNat mediumPercent.toNat).length = total.toNat ∧
      ((tiers total.toNat easyPercent.toNat mediumPercent.toNat).Pairwise
        fun a b => a.level ≤ b.level) ∧
      (easyPercent.toNat + mediumPercent.toNat ≤ 100 →
        Proportionate total.toNat easyPercent.toNat mediumPercent.toNat
          (tiers total.toNat easyPercent.toNat mediumPercent.toNat)) ∧
      (∀ s t : Settings, s.validate = .ok t → t.easyPercent.toNat + t.mediumPercent.toNat ≤ 100) := by
  refine ⟨tiers?_eq_tiers htotal _ _, length_tiers _ _ _, pairwise_tiers _ _ _,
    proportionate_tiers _, ?_⟩
  intro s t haccepted
  obtain ⟨rfl, hshares⟩ := Settings.validate_eq_ok_iff.1 haccepted
  exact hshares

/-- Half of three rounds is rounded up twice, so medium rounds give way. -/
theorem tiers_proportionate_halves :
    100 * (3 : UInt64).toNat + 50 < UInt64.size ∧ tiers? 3 50 50 = some [.easy, .easy, .medium] ∧
      (50 : UInt32).toNat + (50 : UInt32).toNat ≤ 100 ∧
      Proportionate 3 50 50 [.easy, .easy, .medium] := by
  have htotal : 100 * (3 : UInt64).toNat + 50 < UInt64.size := by decide
  have hshares : (50 : UInt32).toNat + (50 : UInt32).toNat ≤ 100 := by decide
  obtain ⟨hwords, -, -, hproportionate, -⟩ := tiers_proportionate htotal 50 50
  exact ⟨htotal, hwords, hshares, hproportionate hshares⟩

end Schedule
end TargetQuiz

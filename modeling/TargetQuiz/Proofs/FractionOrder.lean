import TargetQuiz.Proofs.FractionDoubleWords

namespace TargetQuiz.Fraction

theorem cross_lt_iff {a b : Fraction} :
    a.num.toInt * b.den.toInt < b.num.toInt * a.den.toInt ↔ a.toRat < b.toRat := by
  have ha : (0 : ℚ) < a.den.toInt := by exact_mod_cast a.den_pos
  have hb : (0 : ℚ) < b.den.toInt := by exact_mod_cast b.den_pos
  rw [toRat_eq_div, toRat_eq_div, div_lt_div_iff₀ ha hb]
  norm_cast

theorem compare_eq_lt_iff {a b : Fraction} : a.compare b = .lt ↔ a.toRat < b.toRat :=
  Int.compare_eq_lt.trans cross_lt_iff

theorem compare_eq_gt_iff {a b : Fraction} : a.compare b = .gt ↔ b.toRat < a.toRat :=
  Int.compare_eq_gt.trans cross_lt_iff

theorem isLE_compare_iff {a b : Fraction} : (a.compare b).isLE = true ↔ a.toRat ≤ b.toRat := by
  rw [← not_lt, ← compare_eq_gt_iff]
  cases a.compare b <;> simp

theorem compare_eq_eq_iff {a b : Fraction} : a.compare b = .eq ↔ a.toRat = b.toRat := by
  have hneither : a.toRat = b.toRat ↔ ¬a.compare b = .gt ∧ ¬a.compare b = .lt := by
    rw [compare_eq_gt_iff, compare_eq_lt_iff, not_lt, not_lt]
    exact le_antisymm_iff
  rw [hneither]
  cases a.compare b <;> simp

instance : Std.TransCmp Fraction.compare where
  eq_swap {a b} := by
    rcases lt_trichotomy a.toRat b.toRat with h | h | h
    · rw [compare_eq_lt_iff.2 h, compare_eq_gt_iff.2 h]
      rfl
    · rw [compare_eq_eq_iff.2 h, compare_eq_eq_iff.2 h.symm]
      rfl
    · rw [compare_eq_gt_iff.2 h, compare_eq_lt_iff.2 h]
      rfl
  isLE_trans hab hbc := isLE_compare_iff.2 ((isLE_compare_iff.1 hab).trans (isLE_compare_iff.1 hbc))

instance : Std.LawfulEqCmp Fraction.compare where
  compare_self := compare_eq_eq_iff.2 rfl
  eq_of_compare h := toRat_injective (compare_eq_eq_iff.1 h)

/-- The comparison of two pairs of words, with each cross product held to a double word. -/
def Parts.compare? (a b : Parts) : Option Ordering := do
  let x ← Word.int128? (a.num.toInt * b.den.toInt)
  let y ← Word.int128? (b.num.toInt * a.den.toInt)
  return Ord.compare x y

theorem Parts.compare?_eq (a b : Fraction) : compare? a.parts b.parts = some (a.compare b) := by
  simp [compare?, int128?_mul, Fraction.compare]

theorem add_lt_add {a b c x y : Fraction} (h : a.compare b = .lt) (hx : a.add c = .ok x)
    (hy : b.add c = .ok y) : x.compare y = .lt := by
  rw [compare_eq_lt_iff] at h ⊢
  rw [add_eq_ok_iff.1 hx, add_eq_ok_iff.1 hy]
  exact add_lt_add_left h _

theorem mul_lt_mul {a b c x y : Fraction} (h : a.compare b = .lt) (hc : zero.compare c = .lt)
    (hx : a.mul c = .ok x) (hy : b.mul c = .ok y) : x.compare y = .lt := by
  rw [compare_eq_lt_iff] at h hc ⊢
  rw [mul_eq_ok_iff.1 hx, mul_eq_ok_iff.1 hy]
  exact mul_lt_mul_of_pos_right h hc

theorem pairwise_sort (fs : List Fraction) :
    (sort fs).Pairwise fun a b => (a.compare b).isLE = true := by
  refine List.pairwise_mergeSort (fun a b c => Std.TransCmp.isLE_trans) (fun a b => ?_) fs
  rw [Bool.or_eq_true, isLE_compare_iff, isLE_compare_iff]
  exact le_total _ _

theorem eq_sort_iff {fs l : List Fraction} :
    l.Perm fs ∧ l.Pairwise (fun a b => (a.compare b).isLE = true) ↔ l = sort fs := by
  constructor
  · rintro ⟨hperm, hascending⟩
    -- neither of two fractions comes first only if they are equal, so no two arrangements differ
    refine List.Perm.eq_of_pairwise (fun a b _ _ hab hba => ?_) hascending (pairwise_sort fs)
      (hperm.trans (List.mergeSort_perm fs _).symm)
    exact Std.LawfulEqCmp.eq_of_compare (Std.OrientedCmp.isLE_antisymm hab hba)
  · rintro rfl
    exact ⟨List.mergeSort_perm fs _, pairwise_sort fs⟩

/-- The comparison is that of the values and never leaves the double words, fractions are equal
exactly when their values are, the order is linear, sums with the same fraction and products with
the same positive fraction keep it, and sorting gives the one ascending arrangement of a list. -/
theorem compare_lawful (a b c : Fraction) (fs : List Fraction) :
    ((a.compare b = .lt ↔ a.toRat < b.toRat) ∧ (a.compare b = .gt ↔ b.toRat < a.toRat) ∧
      (a.compare b = .eq ↔ a.toRat = b.toRat)) ∧
    Parts.compare? a.parts b.parts = some (a.compare b) ∧
    (a.compare b = .eq ↔ a = b) ∧
    b.compare a = (a.compare b).swap ∧
    ((a.compare b).isLE = true → (b.compare c).isLE = true → (a.compare c).isLE = true) ∧
    (a.compare b = .lt → b.compare c = .lt → a.compare c = .lt) ∧
    (∀ x y, a.compare b = .lt → a.add c = .ok x → b.add c = .ok y → x.compare y = .lt) ∧
    (∀ x y, a.compare b = .lt → zero.compare c = .lt → a.mul c = .ok x → b.mul c = .ok y →
      x.compare y = .lt) ∧
    ∀ l, l.Perm fs ∧ l.Pairwise (fun x y => (x.compare y).isLE = true) ↔ l = sort fs :=
  ⟨⟨compare_eq_lt_iff, compare_eq_gt_iff, compare_eq_eq_iff⟩, Parts.compare?_eq a b,
    Std.LawfulEqCmp.compare_eq_iff_eq, Std.OrientedCmp.eq_swap, Std.TransCmp.isLE_trans,
    Std.TransCmp.lt_trans, fun _ _ => add_lt_add, fun _ _ => mul_lt_mul, fun _ => eq_sort_iff⟩

theorem compare_lawful_least :
    ∃ a b c x y u v : Fraction,
      a.parts = ⟨Int64.minValue, 3⟩ ∧ b.parts = ⟨1, 4⟩ ∧ c.parts = ⟨1, 3⟩ ∧
      a.compare b = .lt ∧ b.compare c = .lt ∧ zero.compare c = .lt ∧
      a.add c = .ok x ∧ b.add c = .ok y ∧ a.mul c = .ok u ∧ b.mul c = .ok v ∧
      a.compare c = .lt ∧ x.compare y = .lt ∧ u.compare v = .lt ∧ [a, b, c] = sort [c, a, b] := by
  let a : Fraction := ⟨Int64.minValue, 3, by decide, by decide⟩
  let b : Fraction := ⟨1, 4, by decide, by decide⟩
  let c : Fraction := ⟨1, 3, by decide, by decide⟩
  let x : Fraction := ⟨-9223372036854775807, 3, by decide, by decide⟩
  let y : Fraction := ⟨7, 12, by decide, by decide⟩
  let u : Fraction := ⟨Int64.minValue, 9, by decide, by decide⟩
  let v : Fraction := ⟨1, 12, by decide, by decide⟩
  have hab : a.compare b = .lt := by decide
  have hbc : b.compare c = .lt := by decide
  have hc : zero.compare c = .lt := by decide
  have hx : a.add c = .ok x := by decide +kernel
  have hy : b.add c = .ok y := by decide +kernel
  have hu : a.mul c = .ok u := by decide +kernel
  have hv : b.mul c = .ok v := by decide +kernel
  obtain ⟨-, -, -, -, -, htrans, hadd, hmul, hsort⟩ := compare_lawful a b c [c, a, b]
  have hac := htrans hab hbc
  have hsorted : [a, b, c] = sort [c, a, b] := (hsort _).1 ⟨by decide, by decide⟩
  exact ⟨a, b, c, x, y, u, v, rfl, rfl, rfl, hab, hbc, hc, hx, hy, hu, hv, hac,
    hadd x y hab hx hy, hmul u v hab hc hu hv, hsorted⟩

end TargetQuiz.Fraction

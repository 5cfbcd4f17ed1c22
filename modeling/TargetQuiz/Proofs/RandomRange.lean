import TargetQuiz.Proofs.RandomStep

/-! Ranges in machine words: an unsigned size, a remainder read as a signed offset, and a sum that
may wrap. Every wrap is a multiple of 2^64, so they undo each other; only the range of all numbers
has a size that no word denotes. -/
namespace TargetQuiz

namespace Word

def distance (a b : Int64) : UInt64 :=
  if a < b then b.toUInt64 - a.toUInt64 else a.toUInt64 - b.toUInt64

theorem toNat_toUInt64 (a : Int64) : (a.toUInt64.toNat : Int) = a.toInt % UInt64.size := by
  have hsigned := BitVec.toInt_eq_toNat_cond a.toBitVec
  have hlt := a.toUInt64.toNat_lt
  rw [Int64.toInt_toBitVec, Int64.toNat_toBitVec] at hsigned
  rw [UInt64.size]
  split at hsigned
  · omega
  · omega

/-- Words in ascending order have their difference, also where it is too large for a signed word. -/
theorem toNat_sub_toUInt64 {a b : Int64} (h : b.toInt ≤ a.toInt) :
    ((a.toUInt64 - b.toUInt64).toNat : Int) = a.toInt - b.toInt := by
  have ha := toNat_toUInt64 a
  have hb := toNat_toUInt64 b
  have hmax := a.toInt_lt
  have hmin := b.le_toInt
  rw [UInt64.size] at ha hb
  rw [UInt64.toNat_sub]
  omega

theorem toNat_distance (a b : Int64) : (distance a b).toNat = (a.toInt - b.toInt).natAbs := by
  rw [distance]
  by_cases h : a < b
  · have hle := Int.le_of_lt (Int64.lt_iff_toInt_lt.1 h)
    have hsub := toNat_sub_toUInt64 hle
    rw [if_pos h]
    omega
  · have hle := Int64.le_iff_toInt_le.1 (Int64.not_lt.1 h)
    have hsub := toNat_sub_toUInt64 hle
    rw [if_neg h]
    omega

/-- The sum with a word that is read as a signed one wraps as the sum of what both denote does. -/
theorem add_toInt64 (a : Int64) (w : UInt64) :
    a + w.toInt64 = Int64.ofInt (a.toInt + w.toNat) := by
  -- reading a word as signed takes its number modulo 2^64, as any integer is taken into a word
  have hw : w.toInt64 = Int64.ofInt w.toNat := by
    rw [Int64.ofInt_eq_ofNat, ← UInt64.toInt64_ofNat', UInt64.ofNat_toNat]
  rw [Int64.ofInt_add, Int64.ofInt_toInt, hw]

end Word

namespace Generator

open Word

def betweenWords (lo hi : Int64) (g : Generator) : Int64 × Generator :=
  if hi ≤ lo then (lo, g)
  else
    let (offset, g) := g.below (distance hi lo + 1)
    (lo + offset.toInt64, g)

/-- The size of a range as a word, which is zero for the range of all numbers. -/
theorem distance_add_one {lo hi : Int64} (h : lo < hi) :
    distance hi lo + 1 = UInt64.ofNat ((hi.toInt - lo.toInt).toNat + 1) := by
  have hlt := Int64.lt_iff_toInt_lt.1 h
  have hdistance : (distance hi lo).toNat = (hi.toInt - lo.toInt).toNat := by
    rw [toNat_distance]
    omega
  rw [UInt64.ofNat_add, ← hdistance, UInt64.ofNat_toNat]
  rfl

theorem betweenWords_eq (lo hi : Int64) (g : Generator) :
    g.betweenWords lo hi = g.between lo hi := by
  rw [betweenWords, between]
  by_cases h : hi ≤ lo
  · rw [if_pos h, if_pos h]
  · rw [if_neg h, if_neg h]
    simp only [distance_add_one (Int64.not_le.1 h), add_toInt64]

theorem exists_output_eq (u : UInt64) : ∃ g, g ≠ dead ∧ g.output = u := by
  refine ⟨⟨1, u - 1⟩, ?_, ?_⟩
  · intro hdead
    exact absurd (congrArg first hdead) (by decide : (1 : UInt64) ≠ 0)
  · rw [output, UInt64.add_comm, UInt64.sub_add_cancel]

section Proper

variable {lo hi : Int64} (hlt : lo < hi) (hproper : ¬(lo = Int64.minValue ∧ hi = Int64.maxValue))

include hlt hproper

theorem size_lt : (hi.toInt - lo.toInt).toNat + 1 < UInt64.size := by
  have hzero := mt (ofNat_size_eq_zero_iff hlt).1 hproper
  have hmin := lo.le_toInt
  have hmax := hi.toInt_lt
  rw [← UInt64.toNat_inj, UInt64.toNat_ofNat'] at hzero
  change ¬_ % 18446744073709551616 = 0 at hzero
  change _ < 18446744073709551616
  omega

theorem toNat_distance_add_one :
    ((distance hi lo + 1).toNat : Int) = hi.toInt - lo.toInt + 1 := by
  have hsize := size_lt hlt hproper
  have hltInt := Int64.lt_iff_toInt_lt.1 hlt
  rw [distance_add_one hlt, UInt64.toNat_ofNat_of_lt' hsize]
  omega

theorem toInt_between_eq_emod (g : Generator) :
    (g.between lo hi).1.toInt = lo.toInt + g.output.toNat % (hi.toInt - lo.toInt + 1) := by
  have hltInt := Int64.lt_iff_toInt_lt.1 hlt
  have hspan : ((hi.toInt - lo.toInt).toNat : Int) = hi.toInt - lo.toInt :=
    Int.toNat_of_nonneg (by omega)
  rw [toInt_between hlt (size_lt hlt hproper), Int.natCast_emod, Int.natCast_add, hspan]
  rfl

theorem between_snd_eq_step (g : Generator) : (g.between lo hi).2 = g.step := by
  have hdrawn : ¬(hi ≤ lo ∨ lo = Int64.minValue ∧ hi = Int64.maxValue) :=
    not_or.2 ⟨Int64.not_le.2 hlt, hproper⟩
  rw [between_snd, Request.words, if_neg hdrawn]
  rfl

theorem between_mem (g : Generator) : lo ≤ (g.between lo hi).1 ∧ (g.between lo hi).1 ≤ hi := by
  have hltInt := Int64.lt_iff_toInt_lt.1 hlt
  have hpos : 0 < hi.toInt - lo.toInt + 1 := by omega
  have hnonneg := Int.emod_nonneg g.output.toNat (Int.ne_of_gt hpos)
  have hbound := Int.emod_lt_of_pos g.output.toNat hpos
  rw [Int64.le_iff_toInt_le, Int64.le_iff_toInt_le, toInt_between_eq_emod hlt hproper]
  omega

/-- The word that is as far from zero as a number is from the least one gives that number. -/
theorem between_of_output_eq_distance {v : Int64} (hlo : lo ≤ v) (hhi : v ≤ hi) {g : Generator}
    (hg : g.output = distance v lo) : (g.between lo hi).1 = v := by
  have hloInt := Int64.le_iff_toInt_le.1 hlo
  have hhiInt := Int64.le_iff_toInt_le.1 hhi
  have hdistance : ((distance v lo).toNat : Int) = v.toInt - lo.toInt := by
    rw [toNat_distance]
    omega
  -- the distance of a number in the range is below the size, so it is its own remainder
  have hmod : (v.toInt - lo.toInt) % (hi.toInt - lo.toInt + 1) = v.toInt - lo.toInt :=
    Int.emod_eq_of_lt (by omega) (by omega)
  rw [← Int64.toInt_inj, toInt_between_eq_emod hlt hproper, hg, hdistance, hmod]
  omega

theorem exists_between_eq {v : Int64} (hlo : lo ≤ v) (hhi : v ≤ hi) :
    ∃ g, g ≠ dead ∧ (g.between lo hi).1 = v := by
  obtain ⟨g, hg, houtput⟩ := exists_output_eq (distance v lo)
  exact ⟨g, hg, between_of_output_eq_distance hlt hproper hlo hhi houtput⟩

end Proper

/-- Drawing a number from a range with words only gives what the integers say. An empty range or
one of a single number gives `lo` and draws nothing. Of any other range but that of all numbers the
size does not wrap, one word is drawn, the number is `lo` plus the remainder of the word by the
size, it is in the range, and each number of the range is given by some word, whatever the state
that the word is drawn from. -/
theorem between_exact (lo hi : Int64) (g : Generator) :
    g.betweenWords lo hi = g.between lo hi ∧
      (hi ≤ lo → g.between lo hi = (lo, g)) ∧
      (lo < hi → ¬(lo = Int64.minValue ∧ hi = Int64.maxValue) →
        ((distance hi lo + 1).toNat : Int) = hi.toInt - lo.toInt + 1 ∧
        (g.between lo hi).1.toInt = lo.toInt + g.next.1.toNat % (hi.toInt - lo.toInt + 1) ∧
        (g.between lo hi).2 = g.next.2 ∧
        (lo ≤ (g.between lo hi).1 ∧ (g.between lo hi).1 ≤ hi) ∧
        ∀ v, lo ≤ v → v ≤ hi → ∃ u : UInt64, (∃ h : Generator, h ≠ dead ∧ h.next.1 = u) ∧
          ∀ h : Generator, h.next.1 = u → (h.between lo hi).1 = v) := by
  refine ⟨betweenWords_eq lo hi g, fun hle => ?_, fun hlt hproper => ?_⟩
  · rw [between, if_pos hle]
  · refine ⟨toNat_distance_add_one hlt hproper, toInt_between_eq_emod hlt hproper g,
      between_snd_eq_step hlt hproper g, between_mem hlt hproper g, fun v hlo hhi => ?_⟩
    exact ⟨distance v lo, exists_output_eq _,
      fun h hh => between_of_output_eq_distance hlt hproper hlo hhi hh⟩

/-- All numbers but the greatest. As a signed word the offset is negative, and the sum wraps. -/
theorem between_exact_all_but_greatest :
    (3 : Int64) ≤ 7 ∧ between 7 3 dead = (7, dead) ∧
      Int64.minValue < 9223372036854775806 ∧
      ¬(Int64.minValue = Int64.minValue ∧ (9223372036854775806 : Int64) = Int64.maxValue) ∧
      (13835058055282163712 : UInt64).toInt64.toInt = -4611686018427387904 ∧
      (betweenWords Int64.minValue 9223372036854775806 ⟨13835058055282163712, 0⟩).1.toInt =
        4611686018427387904 ∧
      ∃ u : UInt64, ∀ h : Generator, h.next.1 = u →
        (h.between Int64.minValue 9223372036854775806).1 = 9223372036854775806 := by
  have hle : (3 : Int64) ≤ 7 := by decide
  have hlt : Int64.minValue < 9223372036854775806 := by decide
  have hproper : ¬(Int64.minValue = Int64.minValue ∧
      (9223372036854775806 : Int64) = Int64.maxValue) := by decide
  obtain ⟨hwords, -, hrange⟩ := between_exact Int64.minValue 9223372036854775806
    ⟨13835058055282163712, 0⟩
  obtain ⟨-, hvalue, -, -, hhit⟩ := hrange hlt hproper
  obtain ⟨u, -, hu⟩ := hhit 9223372036854775806 (by decide) (by decide)
  refine ⟨hle, (between_exact 7 3 dead).2.1 hle, hlt, hproper, by decide, ?_, u, hu⟩
  rw [hwords, hvalue]
  decide

end Generator
end TargetQuiz

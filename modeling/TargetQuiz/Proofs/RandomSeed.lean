import Mathlib.Logic.Function.Basic
import TargetQuiz.Random.Generator

namespace TargetQuiz

namespace SplitMix

/-- What a shift to the right adds to a word can be taken off again from the highest bit down. -/
theorem xor_shiftRight_injective {k : UInt64} (hk : 0 < k.toNat % 64) :
    Function.Injective fun x : UInt64 => x ^^^ x >>> k := by
  intro x y h
  change x ^^^ x >>> k = y ^^^ y >>> k at h
  have hfixed : x ^^^ y = (x ^^^ y) >>> k := by
    calc x ^^^ y = x ^^^ (y ^^^ y >>> k) ^^^ y >>> k := by
          rw [UInt64.xor_assoc, UInt64.xor_assoc, UInt64.xor_self, UInt64.xor_zero]
      _ = x ^^^ (x ^^^ x >>> k) ^^^ y >>> k := by rw [h]
      _ = x >>> k ^^^ y >>> k := by rw [← UInt64.xor_assoc x, UInt64.xor_self, UInt64.zero_xor]
      _ = (x ^^^ y) >>> k := UInt64.shiftRight_xor.symm
  have hnat := congrArg UInt64.toNat hfixed
  rw [UInt64.toNat_shiftRight, Nat.shiftRight_eq_div_pow] at hnat
  have hzero : (x ^^^ y).toNat = 0 := by
    by_contra hne
    have hlt := Nat.div_lt_self (Nat.pos_of_ne_zero hne) (Nat.one_lt_two_pow (Nat.ne_of_gt hk))
    omega
  exact UInt64.xor_eq_zero_iff.1 (UInt64.toNat_inj.1 hzero)

theorem mul_injective {c : UInt64} (inverse : UInt64) (h : c * inverse = 1) :
    Function.Injective fun x : UInt64 => x * c := by
  refine Function.LeftInverse.injective (g := fun x => x * inverse) ?_
  intro x
  change x * c * inverse = x
  rw [UInt64.mul_assoc, h, UInt64.mul_one]

theorem finalise_injective : Function.Injective finalise := by
  have hfirst : Function.Injective fun z : UInt64 => z * 0xBF58476D1CE4E5B9 :=
    mul_injective 0x96DE1B173F119089 (by decide)
  have hsecond : Function.Injective fun z : UInt64 => z * 0x94D049BB133111EB :=
    mul_injective 0x319642B2D24D8EC3 (by decide)
  have h30 := xor_shiftRight_injective (k := 30) (by decide)
  have h27 := xor_shiftRight_injective (k := 27) (by decide)
  have h31 := xor_shiftRight_injective (k := 31) (by decide)
  exact h31.comp (hsecond.comp (h27.comp (hfirst.comp h30)))

theorem next_fst_injective : Function.Injective fun counter => (next counter).1 := by
  intro s t h
  exact (UInt64.add_left_inj increment).1 (finalise_injective h)

end SplitMix

namespace Generator

open SplitMix

/-- The words of a seed are never both zero, since they spread two different counter values. -/
theorem ofSeed_eq (seed : UInt64) :
    ofSeed seed = ⟨finalise (seed + increment), finalise (seed + increment + increment)⟩ := by
  refine if_neg ?_
  rintro ⟨hfirst, hsecond⟩
  have hsame : seed + increment = seed + increment + increment :=
    finalise_injective (hfirst.trans hsecond.symm)
  have hzero : increment = 0 := by
    simpa using hsame
  exact absurd hzero (by decide)

theorem ofSeed_injective : Function.Injective ofSeed := by
  intro s t h
  rw [ofSeed_eq, ofSeed_eq, Generator.mk.injEq] at h
  exact next_fst_injective h.1

end Generator
end TargetQuiz

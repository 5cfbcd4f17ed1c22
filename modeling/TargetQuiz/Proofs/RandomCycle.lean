import Mathlib.Data.Fintype.Card
import Mathlib.Data.List.Prime
import Mathlib.Dynamics.PeriodicPts.Defs
import Mathlib.NumberTheory.LucasPrimality
import Mathlib.SetTheory.Cardinal.Finite
import Mathlib.Tactic.NormNum.Prime
import Mathlib.Tactic.ReduceModChar
import TargetQuiz.Proofs.RandomStep

/-! The live states form one cycle. A step is linear over the two-element field, so any number of
steps is a sum of the first 128 states of the run, found by repeated squaring. One state returns
after as many steps as there are live states, and not after that number over one of its prime
factors. -/
namespace TargetQuiz.Generator

instance : XorOp Generator where
  xor g h := ⟨g.first ^^^ h.first, g.second ^^^ h.second⟩

theorem xor_def (g h : Generator) : g ^^^ h = ⟨g.first ^^^ h.first, g.second ^^^ h.second⟩ := rfl

theorem xor_interchange (a b c d : UInt64) : a ^^^ b ^^^ (c ^^^ d) = a ^^^ c ^^^ (b ^^^ d) := by
  rw [UInt64.xor_assoc, ← UInt64.xor_assoc b, UInt64.xor_comm b, UInt64.xor_assoc c,
    ← UInt64.xor_assoc]

theorem xor_xor_xor_comm (e f g h : Generator) : e ^^^ f ^^^ (g ^^^ h) = e ^^^ g ^^^ (f ^^^ h) := by
  simp only [xor_def, Generator.mk.injEq]
  exact ⟨xor_interchange .., xor_interchange ..⟩

theorem xor_assoc (f g h : Generator) : f ^^^ g ^^^ h = f ^^^ (g ^^^ h) := by
  simp only [xor_def, UInt64.xor_assoc]

theorem xor_self (g : Generator) : g ^^^ g = dead := by
  simp only [xor_def, UInt64.xor_self]
  rfl

theorem xor_dead (g : Generator) : g ^^^ dead = g := by
  simp [xor_def, dead]

theorem dead_xor (g : Generator) : dead ^^^ g = g := by
  simp [xor_def, dead]

theorem step_xor (g h : Generator) : (g ^^^ h).step = g.step ^^^ h.step := by
  have hfirst := rotateLeft_xor (k := 24) (by decide) (by decide) g.first h.first
  have hmixed := xor_interchange g.second h.second g.first h.first
  have hsecond := rotateLeft_xor (k := 37) (by decide) (by decide) (g.second ^^^ g.first)
    (h.second ^^^ h.first)
  simp only [step, xor_def, hfirst, hmixed, hsecond, UInt64.shiftLeft_xor, xor_interchange]

def pick (mask : Nat) (g : Generator) : Generator := if mask % 2 = 1 then g else dead

theorem pick_xor (c d : Nat) (g : Generator) : pick (c ^^^ d) g = pick c g ^^^ pick d g := by
  simp only [pick, Nat.xor_mod_two_eq_one]
  by_cases hc : c % 2 = 1
  · by_cases hd : d % 2 = 1
    · simp [hc, hd, xor_self]
    · simp [hc, hd, xor_dead]
  · by_cases hd : d % 2 = 1
    · simp [hc, hd, dead_xor]
    · simp [hc, hd, xor_dead]

theorem step_pick (mask : Nat) (g : Generator) : (pick mask g).step = pick mask g.step := by
  unfold pick
  split
  · rfl
  · exact step_dead

/-- The sum of those among the first `width` states of a run that a mask picks. -/
def sumOver : Nat → Nat → Generator → Generator
  | 0, _, _ => dead
  | width + 1, mask, g => pick mask g ^^^ sumOver width (mask / 2) g.step

theorem sumOver_zero_mask (width : Nat) (g : Generator) : sumOver width 0 g = dead := by
  induction width generalizing g with
  | zero => rfl
  | succ width ih =>
    rw [sumOver, Nat.zero_div, ih, xor_dead]
    rfl

theorem sumOver_xor (width c d : Nat) (g : Generator) :
    sumOver width (c ^^^ d) g = sumOver width c g ^^^ sumOver width d g := by
  induction width generalizing c d g with
  | zero => exact (xor_self dead).symm
  | succ width ih => rw [sumOver, pick_xor, Nat.xor_div_two, ih, sumOver, sumOver, xor_xor_xor_comm]

theorem step_sumOver (width mask : Nat) (g : Generator) :
    (sumOver width mask g).step = sumOver width mask g.step := by
  induction width generalizing mask g with
  | zero => exact step_dead
  | succ width ih => rw [sumOver, step_xor, step_pick, ih, sumOver]

theorem iterate_sumOver (n width mask : Nat) (g : Generator) :
    step^[n] (sumOver width mask g) = sumOver width mask (step^[n] g) := by
  induction n generalizing g with
  | zero => rfl
  | succ n ih => rw [Function.iterate_succ_apply, step_sumOver, ih, Function.iterate_succ_apply]

theorem sumOver_succ (width mask : Nat) (g : Generator) :
    sumOver (width + 1) mask g =
      sumOver width mask g ^^^ pick (mask >>> width) (step^[width] g) := by
  induction width generalizing mask g with
  | zero => simp only [sumOver, xor_dead, dead_xor, Nat.shiftRight_zero, Function.iterate_zero_apply]
  | succ width ih =>
    rw [sumOver, ih, sumOver, Function.iterate_succ_apply, Nat.shiftRight_succ_inside, xor_assoc]

/-- The sum over the run from the next state, by the mask moved up by one. -/
theorem sumOver_double (width mask : Nat) (g : Generator) :
    sumOver (width + 1) (2 * mask) g = sumOver width mask g.step := by
  have hodd : ¬2 * mask % 2 = 1 := by omega
  have hhalf : 2 * mask / 2 = mask := by omega
  rw [sumOver, pick, if_neg hodd, hhalf, dead_xor]

def origin : Generator := ⟨1, 0⟩

/-- The recurrence of the run: its state number 128 is the sum of those picked among the ones
before it. -/
def recurrence : Nat := 0x10008828e513b43d5095b8f76579aa001

theorem sumOver_recurrence : sumOver 128 recurrence origin = step^[128] origin := by
  decide +kernel

def stateOf (mask : Nat) : Generator := sumOver 128 mask origin

-- The next two definitions are evaluated in the kernel, so they are spelt in the functions on
-- natural numbers that it computes at once.

def nextMask (mask : Nat) : Nat :=
  Nat.xor (Nat.mul 2 mask) (Nat.mul (Nat.land (Nat.shiftRight mask 127) 1) recurrence)

/-- The mask of a sum over the run from the state of a mask. -/
def composed : Nat → Nat → Nat → Nat
  | 0, _, _ => 0
  | width + 1, c, d =>
    Nat.xor (Nat.mul (Nat.land c 1) d) (composed width (Nat.div c 2) (nextMask d))

/-- The mask of the state after `n` steps, for an `n` of at most `width` bits. -/
def maskAfter : Nat → Nat → Nat
  | 0, _ => 1
  | width + 1, n =>
    let half := maskAfter width (n / 2)
    if n % 2 = 1 then nextMask (composed 128 half half) else composed 128 half half

theorem stateOf_xor (c d : Nat) : stateOf (c ^^^ d) = stateOf c ^^^ stateOf d :=
  sumOver_xor 128 c d origin

/-- A mask is kept or dropped as a bit says. -/
theorem stateOf_mul_bit (bit mask : Nat) :
    stateOf (bit % 2 * mask) = pick bit (stateOf mask) := by
  unfold pick
  split
  · rename_i hone
    rw [hone, Nat.one_mul]
  · rename_i hne
    have hzero : bit % 2 = 0 := by omega
    rw [hzero, Nat.zero_mul]
    exact sumOver_zero_mask 128 origin

theorem nextMask_eq (mask : Nat) :
    nextMask mask = 2 * mask ^^^ (mask >>> 127) % 2 * recurrence := by
  rw [← Nat.and_one_is_mod]
  rfl

theorem stateOf_nextMask (mask : Nat) : stateOf (nextMask mask) = (stateOf mask).step := by
  have hrecurrence : stateOf recurrence = step^[127] origin.step := sumOver_recurrence
  have hdouble : stateOf (2 * mask) = sumOver 127 mask origin.step := sumOver_double 127 mask origin
  calc stateOf (nextMask mask)
      = sumOver 127 mask origin.step ^^^ pick (mask >>> 127) (step^[127] origin.step) := by
        rw [nextMask_eq, stateOf_xor, stateOf_mul_bit, hrecurrence, hdouble]
    _ = sumOver 128 mask origin.step := (sumOver_succ 127 mask origin.step).symm
    _ = (stateOf mask).step := (step_sumOver 128 mask origin).symm

theorem composed_succ (width c d : Nat) :
    composed (width + 1) c d = c % 2 * d ^^^ composed width (c / 2) (nextMask d) := by
  rw [← Nat.and_one_is_mod]
  rfl

theorem stateOf_composed (width c d : Nat) :
    stateOf (composed width c d) = sumOver width c (stateOf d) := by
  induction width generalizing c d with
  | zero => exact sumOver_zero_mask 128 origin
  | succ width ih =>
    rw [composed_succ, stateOf_xor, stateOf_mul_bit, ih, stateOf_nextMask, sumOver]

/-- A mask composed with itself stands for twice as many steps. -/
theorem stateOf_composed_self {mask n : Nat} (h : stateOf mask = step^[n] origin) :
    stateOf (composed 128 mask mask) = step^[n + n] origin := by
  calc stateOf (composed 128 mask mask)
      = sumOver 128 mask (step^[n] origin) := by rw [stateOf_composed, h]
    _ = step^[n] (stateOf mask) := (iterate_sumOver n 128 mask origin).symm
    _ = step^[n + n] origin := by rw [h, Function.iterate_add_apply]

theorem stateOf_one : stateOf 1 = origin := by
  decide +kernel

theorem stateOf_maskAfter {width n : Nat} (hn : n >>> width = 0) :
    stateOf (maskAfter width n) = step^[n] origin := by
  induction width generalizing n with
  | zero =>
    rw [Nat.shiftRight_zero] at hn
    rw [hn]
    exact stateOf_one
  | succ width ih =>
    rw [Nat.shiftRight_succ_inside] at hn
    have hdouble := stateOf_composed_self (ih hn)
    rw [maskAfter]
    split
    · rename_i hodd
      have hsum : (n / 2 + n / 2).succ = n := by omega
      rw [stateOf_nextMask, hdouble, ← Function.iterate_succ_apply' step, hsum]
    · have hsum : n / 2 + n / 2 = n := by omega
      rw [hdouble, hsum]

theorem mem_of_prime_dvd_prod {factors : List Nat} (hfactors : ∀ p ∈ factors, p.Prime) {q : Nat}
    (hq : q.Prime) (h : q ∣ factors.prod) : q ∈ factors :=
  mem_list_primes_of_dvd_prod hq.prime (fun p hp => (hfactors p hp).prime) h

/-- The largest of the factors is prime, since three is a primitive root of it. -/
theorem prime_largest : Nat.Prime 67280421310721 := by
  refine lucas_primality _ 3 (by reduce_mod_char) fun q hq hdvd => ?_
  have hprimes : ∀ p ∈ [2, 2, 2, 2, 2, 2, 2, 2, 5, 47, 373, 2998279], Nat.Prime p := by
    norm_num
  have hmem : q ∈ [2, 2, 2, 2, 2, 2, 2, 2, 5, 47, 373, 2998279] :=
    mem_of_prime_dvd_prod hprimes hq (by simpa using hdvd)
  have hcases : q = 2 ∨ q = 5 ∨ q = 47 ∨ q = 373 ∨ q = 2998279 := by
    simpa using hmem
  rcases hcases with rfl | rfl | rfl | rfl | rfl
  all_goals
    norm_num only
    reduce_mod_char
    decide

def liveCount : Nat := stateCount - 1

def liveCountFactors : List Nat :=
  [3, 5, 17, 257, 641, 65537, 274177, 6700417, 67280421310721]

theorem prod_liveCountFactors : liveCountFactors.prod = liveCount := by decide +kernel

theorem prime_of_mem_liveCountFactors : ∀ q ∈ liveCountFactors, q.Prime := by
  simp only [liveCountFactors, List.forall_mem_cons, List.not_mem_nil, false_imp_iff, implies_true,
    and_true, prime_largest]
  norm_num

theorem stateOf_maskAfter_of_le {n : Nat} (hn : n ≤ liveCount) :
    stateOf (maskAfter 128 n) = step^[n] origin := by
  apply stateOf_maskAfter
  rw [Nat.shiftRight_eq_div_pow]
  apply Nat.div_eq_of_lt
  exact Nat.lt_of_le_of_lt hn (by decide +kernel)

theorem iterate_liveCount_origin : step^[liveCount] origin = origin := by
  rw [← stateOf_maskAfter_of_le (Nat.le_refl _)]
  decide +kernel

theorem iterate_div_origin {q : Nat} (hq : q ∈ liveCountFactors) :
    step^[liveCount / q] origin ≠ origin := by
  have hmasks : ∀ q ∈ liveCountFactors, stateOf (maskAfter 128 (liveCount / q)) ≠ origin := by
    decide +kernel
  rw [← stateOf_maskAfter_of_le (Nat.div_le_self _ _)]
  exact hmasks q hq

theorem minimalPeriod_origin : Function.minimalPeriod step origin = liveCount := by
  have hdvd : Function.minimalPeriod step origin ∣ liveCount :=
    Function.IsPeriodicPt.minimalPeriod_dvd iterate_liveCount_origin
  obtain ⟨k, hk⟩ := hdvd
  by_contra hne
  have hk1 : k ≠ 1 := by
    rintro rfl
    rw [Nat.mul_one] at hk
    exact hne hk.symm
  obtain ⟨q, hq, hqk⟩ := Nat.exists_prime_and_dvd hk1
  have hmem : q ∈ liveCountFactors := by
    apply mem_of_prime_dvd_prod prime_of_mem_liveCountFactors hq
    rw [prod_liveCountFactors, hk]
    exact hqk.mul_left _
  -- then the run returns to the origin after fewer steps than it can
  obtain ⟨l, rfl⟩ := hqk
  have hless : liveCount / q = Function.minimalPeriod step origin * l := by
    rw [hk, ← Nat.mul_assoc, Nat.mul_comm _ q, Nat.mul_assoc, Nat.mul_div_cancel_left _ hq.pos]
  refine iterate_div_origin hmem ?_
  rw [hless]
  exact (Function.isPeriodicPt_minimalPeriod step origin).mul_const l

def toWords : Generator ≃ Fin UInt64.size × Fin UInt64.size where
  toFun g := (g.first.toFin, g.second.toFin)
  invFun p := ⟨UInt64.ofFin p.1, UInt64.ofFin p.2⟩

instance : Fintype Generator := Fintype.ofEquiv _ toWords.symm

theorem card_generator : Fintype.card Generator = stateCount := by
  rw [Fintype.card_congr toWords, Fintype.card_prod, Fintype.card_fin, stateCount]

theorem origin_ne_dead : origin ≠ dead := by decide

/-- The run from the origin has as many states as there are live ones, so it has them all. -/
theorem exists_iterate_origin {g : Generator} (hg : g ≠ dead) :
    ∃ k, k < liveCount ∧ step^[k] origin = g := by
  let run : Fin liveCount → {g : Generator // g ≠ dead} :=
    fun k => ⟨step^[k] origin, iterate_step_ne_dead origin_ne_dead k⟩
  have hinj : Function.Injective run := by
    intro i j hij
    have hperiod := Function.iterate_injOn_Iio_minimalPeriod (f := step) (x := origin)
    rw [minimalPeriod_origin] at hperiod
    exact Fin.ext (hperiod i.isLt j.isLt (congrArg Subtype.val hij))
  have hcard : Fintype.card (Fin liveCount) = Fintype.card {g : Generator // g ≠ dead} := by
    rw [Fintype.card_fin, Fintype.card_subtype_compl, card_generator, Fintype.card_subtype_eq,
      liveCount]
  obtain ⟨k, hk⟩ := ((Fintype.bijective_iff_injective_and_card run).2 ⟨hinj, hcard⟩).2 ⟨g, hg⟩
  exact ⟨k, k.isLt, congrArg Subtype.val hk⟩

/-- From each live state a run comes to every other. -/
theorem exists_iterate_step {g h : Generator} (hg : g ≠ dead) (hh : h ≠ dead) :
    ∃ k, step^[k] g = h := by
  obtain ⟨i, hi, rfl⟩ := exists_iterate_origin hg
  obtain ⟨j, -, rfl⟩ := exists_iterate_origin hh
  refine ⟨j + (liveCount - i), ?_⟩
  have hround : j + (liveCount - i) + i = j + liveCount := by omega
  rw [← Function.iterate_add_apply, hround, Function.iterate_add_apply, iterate_liveCount_origin]

end TargetQuiz.Generator

import Mathlib.Logic.Function.Iterate
import TargetQuiz.Proofs.RandomDraw
import TargetQuiz.Proofs.RandomSeed

namespace TargetQuiz.Generator

/-- Both words zero. From here all words drawn are zero. -/
def dead : Generator := ⟨0, 0⟩

theorem toBitVec_rotateLeft {k : UInt64} (hpos : 0 < k.toNat) (hlt : k.toNat < 64) (x : UInt64) :
    (rotateLeft x k).toBitVec = x.toBitVec.rotateLeft k.toNat := by
  have hsub : (64 - k).toNat = 64 - k.toNat :=
    UInt64.toNat_sub_of_le _ _ (UInt64.le_iff_toNat_le.2 (Nat.le_of_lt hlt))
  have hmod : k.toNat % 64 = k.toNat := Nat.mod_eq_of_lt hlt
  have hleft : (k.toBitVec % 64).toNat = k.toNat := hmod
  have hright : ((64 - k).toBitVec % 64).toNat = 64 - k.toNat := by
    change (64 - k).toNat % 64 = _
    omega
  rw [rotateLeft, UInt64.toBitVec_or, UInt64.toBitVec_shiftLeft, UInt64.toBitVec_shiftRight,
    BitVec.shiftLeft_eq', BitVec.ushiftRight_eq', hleft, hright, BitVec.rotateLeft_def, hmod]

/-- Two rotations that go round together change nothing. -/
theorem rotateLeft_rotateLeft {j k : UInt64} (hj : 0 < j.toNat) (hk : 0 < k.toNat)
    (hround : j.toNat + k.toNat = 64) (x : UInt64) : rotateLeft (rotateLeft x j) k = x := by
  apply UInt64.toBitVec_inj.1
  rw [toBitVec_rotateLeft hk (by omega), toBitVec_rotateLeft hj (by omega)]
  apply BitVec.eq_of_getLsbD_eq
  intro i hi
  have hmodJ : j.toNat % 64 = j.toNat := Nat.mod_eq_of_lt (by omega)
  have hmodK : k.toNat % 64 = k.toNat := Nat.mod_eq_of_lt (by omega)
  simp only [BitVec.getLsbD_rotateLeft, hmodJ, hmodK]
  by_cases hlow : i < k.toNat
  · have hhigh : ¬64 - k.toNat + i < j.toNat := by omega
    have hindex : 64 - k.toNat + i - j.toNat = i := by omega
    have hbound : 64 - k.toNat + i < 64 := by omega
    simp only [hlow, hhigh, hindex, hbound, decide_true, decide_false, cond_true, cond_false,
      Bool.true_and]
  · have hback : i - k.toNat < j.toNat := by omega
    have hindex : 64 - j.toNat + (i - k.toNat) = i := by omega
    simp only [hlow, hback, hindex, hi, decide_true, decide_false, cond_true, cond_false,
      Bool.true_and]

theorem rotateLeft_xor {k : UInt64} (hpos : 0 < k.toNat) (hlt : k.toNat < 64) (x y : UInt64) :
    rotateLeft (x ^^^ y) k = rotateLeft x k ^^^ rotateLeft y k := by
  apply UInt64.toBitVec_inj.1
  rw [UInt64.toBitVec_xor, toBitVec_rotateLeft hpos hlt, toBitVec_rotateLeft hpos hlt,
    toBitVec_rotateLeft hpos hlt, UInt64.toBitVec_xor]
  apply BitVec.eq_of_getLsbD_eq
  intro i hi
  simp only [BitVec.getLsbD_rotateLeft, BitVec.getLsbD_xor]
  cases decide (i < k.toNat % 64) <;> simp [hi]

theorem xor_xor_cancel (x y : UInt64) : x ^^^ y ^^^ y = x := by
  rw [UInt64.xor_assoc, UInt64.xor_self, UInt64.xor_zero]

def back (g : Generator) : Generator :=
  let mixed := rotateLeft g.second 27
  let first := rotateLeft (g.first ^^^ (mixed <<< 16) ^^^ mixed) 40
  ⟨first, mixed ^^^ first⟩

theorem back_step (g : Generator) : back g.step = g := by
  have hmixed : rotateLeft (rotateLeft (g.second ^^^ g.first) 37) 27 = g.second ^^^ g.first :=
    rotateLeft_rotateLeft (by decide) (by decide) (by decide) _
  have hfirst : rotateLeft (rotateLeft g.first 24) 40 = g.first :=
    rotateLeft_rotateLeft (by decide) (by decide) (by decide) _
  simp only [back, step, hmixed, xor_xor_cancel, hfirst]

theorem step_back (g : Generator) : (back g).step = g := by
  have hmixed : rotateLeft (rotateLeft g.second 27) 37 = g.second :=
    rotateLeft_rotateLeft (by decide) (by decide) (by decide) _
  have hfirst (x : UInt64) : rotateLeft (rotateLeft x 40) 24 = x :=
    rotateLeft_rotateLeft (by decide) (by decide) (by decide) _
  simp only [back, step, hfirst, xor_xor_cancel, hmixed]

theorem step_bijective : Function.Bijective step :=
  ⟨Function.LeftInverse.injective back_step, Function.RightInverse.surjective step_back⟩

theorem step_dead : dead.step = dead := by decide

theorem step_eq_dead_iff {g : Generator} : g.step = dead ↔ g = dead := by
  constructor
  · intro h
    exact step_bijective.injective (h.trans step_dead.symm)
  · rintro rfl
    exact step_dead

theorem ofSeed_ne_dead (seed : UInt64) : ofSeed seed ≠ dead := by
  rw [ofSeed]
  dsimp only
  split
  · decide
  · rename_i hwords
    intro hdead
    exact hwords (Generator.mk.inj hdead)

/-- Only the range of all numbers has a size that no word denotes. -/
theorem ofNat_size_eq_zero_iff {lo hi : Int64} (h : lo < hi) :
    UInt64.ofNat ((hi.toInt - lo.toInt).toNat + 1) = 0 ↔
      lo = Int64.minValue ∧ hi = Int64.maxValue := by
  have hlt := Int64.lt_iff_toInt_lt.1 h
  have hmin := Int64.toInt_minValue
  have hmax := Int64.toInt_maxValue
  have hlo := lo.le_toInt
  have hhi := hi.toInt_lt
  rw [← UInt64.toNat_inj, UInt64.toNat_ofNat', ← Int64.toInt_inj, ← Int64.toInt_inj, hmin, hmax]
  change _ % 18446744073709551616 = 0 ↔ _
  omega

/-- What a caller may ask of a generator. A list to be shuffled is one that a machine can hold. -/
inductive Request : Type 1
  | next
  | below (bound : UInt64)
  | between (lo hi : Int64)
  | coin
  | shuffle {α : Type} (xs : List α) (fits : xs.length < UInt64.size)

namespace Request

def after : Request → Generator → Generator
  | next, g => g.next.2
  | below bound, g => (g.below bound).2
  | between lo hi, g => (g.between lo hi).2
  | coin, g => g.coin.2
  | shuffle xs _, g => (g.shuffle xs).2

/-- How many words are drawn for a request. The range of all numbers has no size that a word
denotes, so nothing is drawn for it. -/
def words : Request → Nat
  | next | coin => 1
  | below bound => if bound = 0 then 0 else 1
  | between lo hi => if hi ≤ lo ∨ lo = Int64.minValue ∧ hi = Int64.maxValue then 0 else 1
  | shuffle xs _ => xs.length - 1

end Request

theorem below_snd (bound : UInt64) (g : Generator) :
    (g.below bound).2 = step^[(Request.below bound).words] g := by
  rw [below, Request.words]
  split
  · rfl
  · rfl

theorem between_snd (lo hi : Int64) (g : Generator) :
    (g.between lo hi).2 = step^[(Request.between lo hi).words] g := by
  rw [between, Request.words]
  by_cases hempty : hi ≤ lo
  · rw [if_pos hempty, if_pos (.inl hempty)]
    rfl
  · have hsize := ofNat_size_eq_zero_iff (Int64.not_le.1 hempty)
    simp only [hempty, if_false, false_or, below_snd, Request.words, hsize]

/-- The partner of a position is a remainder of a word, by the number of positions up to it. -/
theorem partners_succ {last : Nat} (hlast : last + 2 < UInt64.size) (g : Generator) :
    partners (last + 1) g =
      (g.output.toNat % (last + 2) :: (partners last g.step).1, (partners last g.step).2) := by
  obtain ⟨hpartner, hnext⟩ := below_ofNat hlast g
  simp only [partners, hpartner, hnext]

theorem partners_snd {last : Nat} (hlast : last + 1 < UInt64.size) (g : Generator) :
    (partners last g).2 = step^[last] g := by
  induction last generalizing g with
  | zero => rfl
  | succ last ih =>
    rw [partners_succ hlast, ih (Nat.lt_of_succ_lt hlast), Function.iterate_succ_apply]

theorem pred_succ_lt_size {n : Nat} (hn : n < UInt64.size) : n - 1 + 1 < UInt64.size := by
  rw [UInt64.size] at hn ⊢
  omega

theorem shuffle_snd {α : Type} {xs : List α} (hxs : xs.length < UInt64.size) (g : Generator) :
    (g.shuffle xs).2 = step^[xs.length - 1] g := partners_snd (pred_succ_lt_size hxs) g

namespace Request

theorem after_eq (r : Request) (g : Generator) : r.after g = step^[r.words] g := by
  cases r with
  | next => rfl
  | below bound => exact below_snd bound g
  | between lo hi => exact between_snd lo hi g
  | coin => rfl
  | shuffle xs fits => exact shuffle_snd fits g

def afterAll : List Request → Generator → Generator
  | [], g => g
  | r :: rs, g => afterAll rs (r.after g)

def allWords : List Request → Nat
  | [] => 0
  | r :: rs => allWords rs + r.words

theorem afterAll_eq (rs : List Request) (g : Generator) : afterAll rs g = step^[allWords rs] g := by
  induction rs generalizing g with
  | nil => rfl
  | cons r rs ih => rw [afterAll, ih, after_eq, ← Function.iterate_add_apply, allWords]

end Request

theorem iterate_step_ne_dead {g : Generator} (hg : g ≠ dead) (n : Nat) : step^[n] g ≠ dead := by
  intro h
  have hdead : step^[n] dead = dead := Function.iterate_fixed step_dead n
  exact hg (step_bijective.injective.iterate n (h.trans hdead.symm))

/-- A step is a bijection of the states that keeps only the dead one. Different seeds give different
generators, and none of them is dead, nor put in the place of a dead one. So whatever is asked of a
seeded generator, it does not die, and generators in different states stay apart as long as they
draw equally often. -/
theorem seeds_live_apart :
    Function.Bijective (fun g : Generator => g.next.2) ∧
      (∀ g : Generator, g.next.2 = dead ↔ g = dead) ∧
      Function.Injective ofSeed ∧
      (∀ seed, ofSeed seed ≠ dead ∧
        ¬((SplitMix.next seed).1 = 0 ∧ (SplitMix.next (SplitMix.next seed).2).1 = 0)) ∧
      (∀ seed rs, Request.afterAll rs (ofSeed seed) ≠ dead) ∧
      ∀ (g h : Generator) (rs ts : List Request), g ≠ h →
        Request.allWords rs = Request.allWords ts →
        Request.afterAll rs g ≠ Request.afterAll ts h := by
  refine ⟨step_bijective, fun g => step_eq_dead_iff, ofSeed_injective, fun seed => ?_,
    fun seed rs => ?_, fun g h rs ts hne hwords => ?_⟩
  · refine ⟨ofSeed_ne_dead seed, fun hzero => ofSeed_ne_dead seed ?_⟩
    rw [ofSeed_eq]
    exact Generator.mk.injEq .. ▸ hzero
  · rw [Request.afterAll_eq]
    exact iterate_step_ne_dead (ofSeed_ne_dead seed) _
  · rw [Request.afterAll_eq, Request.afterAll_eq, hwords]
    exact (step_bijective.injective.iterate _).ne hne

/-- A shuffle of three and a word on one side, a number, a coin and a word on the other. -/
theorem seeds_live_apart_three_words :
    dead ≠ ofSeed 1 ∧
      Request.allWords [.shuffle [1, 2, 3] (by decide), .next] =
        Request.allWords [.between 1 6, .coin, .next] ∧
      Request.afterAll [.shuffle [1, 2, 3] (by decide), .next] dead ≠
        Request.afterAll [.between 1 6, .coin, .next] (ofSeed 1) := by
  have hne : dead ≠ ofSeed 1 := (ofSeed_ne_dead 1).symm
  have hwords : Request.allWords [.shuffle [1, 2, 3] (by decide), .next] =
      Request.allWords [.between 1 6, .coin, .next] := by decide
  exact ⟨hne, hwords, seeds_live_apart.2.2.2.2.2 dead (ofSeed 1) _ _ hne hwords⟩

end TargetQuiz.Generator

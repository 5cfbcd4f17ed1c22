import Mathlib.Tactic.NormNum
import TargetQuiz.Fraction.Text
import TargetQuiz.Proofs.FractionExact
import TargetQuiz.Wire.Values

/-! Fraction arithmetic on pairs of words that promise nothing, every intermediate result held to a
signed 128-bit word. None is ever too large, and the outcomes are those of the fractions. -/
namespace TargetQuiz

/-- Two to the power 127. The signed 128-bit words are the integers from minus this number up to
just below it. -/
def Word.doubleBound : Int := 0x80000000000000000000000000000000

def Word.int128? (z : Int) : Option Int :=
  if -doubleBound ≤ z ∧ z < doubleBound then some z else none

theorem Word.int128?_of_natAbs_lt {z : Int} (h : z.natAbs < 2 ^ 127) : int128? z = some z := by
  have hbound : doubleBound = 2 ^ 127 := rfl
  exact if_pos (by omega)

namespace Fraction

/-- The lowest terms of a rational number are words. -/
structure Representable (q : ℚ) : Prop where
  le_num : Int64.minValue.toInt ≤ q.num
  num_le : q.num ≤ Int64.maxValue.toInt
  den_le : (q.den : Int) ≤ Int64.maxValue.toInt

/-- An outcome is the number in lowest terms if there is one and its terms are words, and it is
an error that tells which of the two fails otherwise. -/
structure Outcome (exact : Option ℚ) (r : Except ArithmeticError Fraction) : Prop where
  exists_ok : (∃ f, r = .ok f) ↔ ∃ q, exact = some q ∧ Representable q
  ok : ∀ f q, r = .ok f → exact = some q → f.num.toInt = q.num ∧ f.den.toInt = q.den
  divisionByZero : r = .error .divisionByZero ↔ exact = none
  overflow : r = .error .overflow ↔ ∃ q, exact = some q ∧ ¬Representable q

theorem representable_toRat (f : Fraction) : Representable f.toRat where
  le_num := f.num.le_toInt
  num_le := Int.le_sub_one_of_lt f.num.toInt_lt
  den_le := by
    rw [toRat_den]
    exact Int.le_sub_one_of_lt f.den.toInt_lt

theorem Representable.exists_toRat {q : ℚ} (h : Representable q) : ∃ f : Fraction, f.toRat = q := by
  have hmin := h.le_num
  have hmax := h.num_le
  have hden := h.den_le
  rw [Int64.toInt_minValue] at hmin
  rw [Int64.toInt_maxValue] at hmax hden
  have hnum : (Int64.ofInt q.num).toInt = q.num := Int64.toInt_ofInt_of_le (by omega) (by omega)
  have hden : (Int64.ofInt q.den).toInt = q.den := Int64.toInt_ofInt_of_le (by omega) (by omega)
  have hpos := q.den_pos
  refine ⟨⟨Int64.ofInt q.num, Int64.ofInt q.den, by omega, ?_⟩, ?_⟩
  · rw [hnum, hden, Int.natAbs_natCast]
    exact q.reduced
  · apply Rat.ext
    · exact hnum
    · change (Int64.ofInt q.den).toInt.natAbs = q.den
      rw [hden, Int.natAbs_natCast]

/-- It is enough to know which values come out and when the divisor is zero. -/
theorem outcome_of_ok_iff {exact : Option ℚ} {r : Except ArithmeticError Fraction}
    (hok : ∀ f, r = .ok f ↔ exact = some f.toRat)
    (hzero : r = .error .divisionByZero ↔ exact = none) : Outcome exact r := by
  have hexists : (∃ f, r = .ok f) ↔ ∃ q, exact = some q ∧ Representable q := by
    constructor
    · rintro ⟨f, hf⟩
      exact ⟨f.toRat, (hok f).1 hf, f.representable_toRat⟩
    · rintro ⟨q, hq, hrepresentable⟩
      obtain ⟨f, rfl⟩ := hrepresentable.exists_toRat
      exact ⟨f, (hok f).2 hq⟩
  refine ⟨hexists, ?_, hzero, ?_⟩
  · intro f q hf hq
    rw [(hok f).1 hf] at hq
    cases hq
    exact ⟨(toRat_num f).symm, (toRat_den f).symm⟩
  · constructor
    · rintro rfl
      cases hexact : exact with
      | none => simp [hexact] at hzero
      | some q =>
        refine ⟨q, rfl, fun hrepresentable => ?_⟩
        obtain ⟨f, hf⟩ := hexists.2 ⟨q, hexact, hrepresentable⟩
        cases hf
    · rintro ⟨q, hq, hnot⟩
      cases r with
      | ok f =>
        rw [(hok f).1 rfl] at hq
        cases hq
        exact absurd f.representable_toRat hnot
      | error e =>
        cases e with
        | divisionByZero => simp [hzero.1 rfl] at hq
        | overflow => rfl

theorem ofQuotient_eq_divisionByZero_iff {n d : Int} :
    ofQuotient n d = .error .divisionByZero ↔ d = 0 := by
  unfold ofQuotient
  split
  · simp [*]
  · split <;> simp [*]

theorem outcome_ofQuotient (n d : Int) : Outcome (Operator.exact .div n d) (ofQuotient n d) := by
  apply outcome_of_ok_iff
  · intro f
    rw [ofQuotient_eq_ok_iff, Operator.exact]
    by_cases hd : d = 0 <;> simp [hd, eq_comm]
  · rw [ofQuotient_eq_divisionByZero_iff, Operator.exact]
    by_cases hd : d = 0 <;> simp [hd]

theorem outcome_apply (op : Operator) (a b : Fraction) :
    Outcome (op.exact a.toRat b.toRat) (op.apply a b) := by
  refine outcome_of_ok_iff (fun f => Operator.apply_eq_ok_iff) ?_
  have hden : a.den.toInt * b.den.toInt ≠ 0 :=
    Int.mul_ne_zero (Int.ne_of_gt a.den_pos) (Int.ne_of_gt b.den_pos)
  cases op with
  | add => simpa [Operator.apply, Operator.exact, add, ofQuotient_eq_divisionByZero_iff] using hden
  | sub => simpa [Operator.apply, Operator.exact, sub, ofQuotient_eq_divisionByZero_iff] using hden
  | mul => simpa [Operator.apply, Operator.exact, mul, ofQuotient_eq_divisionByZero_iff] using hden
  | div =>
    have hcross : a.den.toInt * b.num.toInt = 0 ↔ b.toRat = 0 := by
      rw [toRat_eq_zero_iff, mul_eq_zero, or_iff_right (Int.ne_of_gt a.den_pos)]
    simp [Operator.apply, Operator.exact, div, ofQuotient_eq_divisionByZero_iff, hcross]

structure Parts where
  num : Int64
  den : Int64
  deriving DecidableEq

def parts (f : Fraction) : Parts := ⟨f.num, f.den⟩

@[simp] theorem parts_num (f : Fraction) : f.parts.num = f.num := rfl

@[simp] theorem parts_den (f : Fraction) : f.parts.den = f.den := rfl

namespace Parts

def narrow (num den : Int) : Except ArithmeticError Parts :=
  match Word.int64? num, Word.int64? den with
  | some num, some den => .ok ⟨num, den⟩
  | _, _ => .error .overflow

/-- Divide both parts by their greatest common divisor and narrow them. There is no outcome when an
intermediate result is no double word. -/
def reduce (n d : Int) : Option (Except ArithmeticError Parts) := do
  let g ← Word.int128? (n.natAbs.gcd d.natAbs)
  return narrow (← Word.int128? (n.tdiv g)) (← Word.int128? (d.tdiv g))

def ofQuotient (n d : Int) : Option (Except ArithmeticError Parts) :=
  if d = 0 then return .error .divisionByZero
  else if d < 0 then do reduce (← Word.int128? (-n)) (← Word.int128? (-d))
  else reduce n d

def ofWords (n d : Int64) : Option (Except ArithmeticError Parts) := ofQuotient n.toInt d.toInt

/-- The cross products, each held to a double word, and their quotient. -/
def apply (op : Operator) (a b : Parts) : Option (Except ArithmeticError Parts) :=
  match op with
  | .add => do
    let x ← Word.int128? (a.num.toInt * b.den.toInt)
    let y ← Word.int128? (b.num.toInt * a.den.toInt)
    ofQuotient (← Word.int128? (x + y)) (← Word.int128? (a.den.toInt * b.den.toInt))
  | .sub => do
    let x ← Word.int128? (a.num.toInt * b.den.toInt)
    let y ← Word.int128? (b.num.toInt * a.den.toInt)
    ofQuotient (← Word.int128? (x - y)) (← Word.int128? (a.den.toInt * b.den.toInt))
  | .mul => do
    ofQuotient (← Word.int128? (a.num.toInt * b.num.toInt))
      (← Word.int128? (a.den.toInt * b.den.toInt))
  | .div =>
    if b.num.toInt = 0 then return .error .divisionByZero
    else do
      ofQuotient (← Word.int128? (a.num.toInt * b.den.toInt))
        (← Word.int128? (a.den.toInt * b.num.toInt))

def fractionalPart (a : Parts) : Parts :=
  if a.num.toInt % a.den.toInt = 0 then ⟨0, 1⟩
  else ⟨Int64.ofInt (a.num.toInt % a.den.toInt), a.den⟩

inductive Reached : Parts → Prop
  | ofWords {n d : Int64} {p : Parts} (h : ofWords n d = some (.ok p)) : Reached p
  | whole (n : Int64) : Reached ⟨n, 1⟩
  | parse {s : String} {f : Fraction} (h : Fraction.parse s = .ok f) : Reached f.parts
  | read {s : String} {f : Fraction} (h : Wire.read? s = some f) : Reached f.parts
  | apply {op : Operator} {a b p : Parts} (ha : Reached a) (hb : Reached b)
      (h : apply op a b = some (.ok p)) : Reached p
  | neg {a : Parts} {num : Int64} (ha : Reached a)
      (h : Word.int64? (-a.num.toInt) = some num) : Reached ⟨num, a.den⟩
  | floor {a : Parts} (ha : Reached a) :
      Reached ⟨Int64.ofInt (a.num.toInt / a.den.toInt), 1⟩
  | fractionalPart {a : Parts} (ha : Reached a) : Reached a.fractionalPart

theorem map_parts_ofQuotient {n d : Int} (hd : d ≠ 0) :
    (Fraction.ofQuotient n d).map parts =
      narrow (d.sign * n / (n.natAbs.gcd d.natAbs : Int))
        (d.natAbs / n.natAbs.gcd d.natAbs : Nat) := by
  unfold Fraction.ofQuotient narrow
  rw [dif_neg hd]
  split
  · rename_i num den hnum hden
    change (.ok ⟨num, den⟩ : Except ArithmeticError Parts) = _
    rw [hnum, hden]
  · rename_i hnone
    split
    · rename_i num den hnum hden
      exact (hnone num den hnum hden).elim
    · rfl

/-- Only the sign of the denominator decides about the sign of the quotient. -/
theorem map_parts_ofQuotient_neg {n d : Int} (hd : d ≠ 0) :
    (Fraction.ofQuotient (-n) (-d)).map parts = (Fraction.ofQuotient n d).map parts := by
  rw [map_parts_ofQuotient hd, map_parts_ofQuotient (by omega), Int.sign_neg, Int.neg_mul_neg,
    Int.natAbs_neg, Int.natAbs_neg]

theorem reduce_eq {n d : Int} (hn : n.natAbs < 2 ^ 127) (hpos : 0 < d) (hd : d.natAbs < 2 ^ 127) :
    reduce n d = some ((Fraction.ofQuotient n d).map parts) := by
  have hnumEq : n.tdiv (n.natAbs.gcd d.natAbs : Nat) = n / (n.natAbs.gcd d.natAbs : Nat) :=
    Int.tdiv_eq_ediv_of_dvd (Int.ofNat_dvd_left.2 (Nat.gcd_dvd_left _ _))
  have hdenEq : d.tdiv (n.natAbs.gcd d.natAbs : Nat) = d / (n.natAbs.gcd d.natAbs : Nat) :=
    Int.tdiv_eq_ediv_of_dvd (Int.ofNat_dvd_left.2 (Nat.gcd_dvd_right _ _))
  have hgLe : n.natAbs.gcd d.natAbs ≤ d.natAbs := Nat.gcd_le_right _ (by omega)
  have hnumLe := Int.natAbs_ediv_le_natAbs n (n.natAbs.gcd d.natAbs : Nat)
  have hdenLe := Int.natAbs_ediv_le_natAbs d (n.natAbs.gcd d.natAbs : Nat)
  have hg := Word.int128?_of_natAbs_lt (z := (n.natAbs.gcd d.natAbs : Nat)) (by omega)
  have hnum := Word.int128?_of_natAbs_lt (Nat.lt_of_le_of_lt hnumLe hn)
  have hden := Word.int128?_of_natAbs_lt (Nat.lt_of_le_of_lt hdenLe hd)
  have hsign : d.sign * n = n := by rw [Int.sign_eq_one_of_pos hpos, Int.one_mul]
  have habs : ((d.natAbs / n.natAbs.gcd d.natAbs : Nat) : Int) =
      d / (n.natAbs.gcd d.natAbs : Nat) := by
    rw [Int.natCast_ediv, Int.natAbs_of_nonneg (Int.le_of_lt hpos)]
  simp only [reduce, hg, hnumEq, hdenEq, hnum, hden, Option.bind_eq_bind, Option.bind_some]
  rw [map_parts_ofQuotient (Int.ne_of_gt hpos), hsign, habs]
  rfl

theorem ofQuotient_eq {n d : Int} (hn : n.natAbs < 2 ^ 127) (hd : d.natAbs < 2 ^ 127) :
    ofQuotient n d = some ((Fraction.ofQuotient n d).map parts) := by
  unfold ofQuotient
  split
  · rename_i hzero
    rw [ofQuotient_eq_divisionByZero_iff.2 hzero]
    rfl
  · rename_i hne
    split
    · have hn' : (-n).natAbs < 2 ^ 127 := by omega
      have hd' : (-d).natAbs < 2 ^ 127 := by omega
      have hreduce := reduce_eq hn' (by omega) hd'
      rw [map_parts_ofQuotient_neg hne] at hreduce
      exact Option.bind_eq_some_iff.2 ⟨-n, Word.int128?_of_natAbs_lt hn',
        Option.bind_eq_some_iff.2 ⟨-d, Word.int128?_of_natAbs_lt hd', hreduce⟩⟩
    · exact reduce_eq hn (by omega) hd

theorem ofWords_eq (n d : Int64) : ofWords n d = some ((Fraction.ofWords n d).map parts) := by
  have hn := n.le_toInt
  have hn' := n.toInt_lt
  have hd := d.le_toInt
  have hd' := d.toInt_lt
  exact ofQuotient_eq (by omega) (by omega)

/-- A product of a word and a denominator is so far below a double word that the sum of two is a
double word, too. -/
theorem natAbs_mul_den_le (n : Int64) (f : Fraction) :
    (n.toInt * f.den.toInt).natAbs ≤ 2 ^ 63 * (2 ^ 63 - 1) := by
  have hn := n.le_toInt
  have hn' := n.toInt_lt
  have hd := f.den_pos
  have hd' := f.den.toInt_lt
  rw [Int.natAbs_mul]
  exact Nat.mul_le_mul (by omega) (by omega)

theorem natAbs_mul_le (n m : Int64) : (n.toInt * m.toInt).natAbs ≤ 2 ^ 63 * 2 ^ 63 := by
  have hn := n.le_toInt
  have hn' := n.toInt_lt
  have hm := m.le_toInt
  have hm' := m.toInt_lt
  rw [Int.natAbs_mul]
  exact Nat.mul_le_mul (by omega) (by omega)

theorem int128?_mul (n m : Int64) : Word.int128? (n.toInt * m.toInt) = some (n.toInt * m.toInt) :=
  Word.int128?_of_natAbs_lt (Nat.lt_of_le_of_lt (natAbs_mul_le n m) (by decide))

/-- No intermediate result of an operation is too large, and the outcome is that of the
fractions. -/
theorem apply_eq (op : Operator) (a b : Fraction) :
    apply op a.parts b.parts = some ((op.apply a b).map parts) := by
  have hx := natAbs_mul_den_le a.num b
  have hy := natAbs_mul_den_le b.num a
  have hden := natAbs_mul_den_le a.den b
  cases op with
  | add =>
    have hsum : (a.num.toInt * b.den.toInt + b.num.toInt * a.den.toInt).natAbs < 2 ^ 127 := by
      omega
    simp only [apply, parts_num, parts_den, int128?_mul, Word.int128?_of_natAbs_lt hsum,
      Option.bind_eq_bind, Option.bind_some]
    exact ofQuotient_eq hsum (by omega)
  | sub =>
    have hdiff : (a.num.toInt * b.den.toInt - b.num.toInt * a.den.toInt).natAbs < 2 ^ 127 := by
      omega
    simp only [apply, parts_num, parts_den, int128?_mul, Word.int128?_of_natAbs_lt hdiff,
      Option.bind_eq_bind, Option.bind_some]
    exact ofQuotient_eq hdiff (by omega)
  | mul =>
    have hnums := natAbs_mul_le a.num b.num
    simp only [apply, parts_num, parts_den, int128?_mul, Option.bind_eq_bind, Option.bind_some]
    exact ofQuotient_eq (by omega) (by omega)
  | div =>
    have hnum := natAbs_mul_le a.den b.num
    unfold apply
    by_cases hzero : b.parts.num.toInt = 0
    · have hdiv : a.div b = .error .divisionByZero := by
        rw [div, ofQuotient_eq_divisionByZero_iff, ← parts_num b, hzero, Int.mul_zero]
      rw [if_pos hzero, Operator.apply, hdiv]
      rfl
    · rw [if_neg hzero]
      simp only [parts_num, parts_den, int128?_mul, Option.bind_eq_bind, Option.bind_some]
      exact ofQuotient_eq (by omega) (by omega)

theorem fractionalPart_parts (f : Fraction) : f.parts.fractionalPart = f.fractionalPart.parts := by
  unfold fractionalPart Fraction.fractionalPart
  rw [parts_num, parts_den]
  split <;> rfl

theorem exists_parts_of_map_eq {r : Except ArithmeticError Fraction} {p : Parts}
    (h : some (r.map parts) = some (.ok p)) : ∃ f : Fraction, f.parts = p := by
  cases r with
  | error e => cases h
  | ok f =>
    cases h
    exact ⟨f, rfl⟩

theorem Reached.exists_parts {p : Parts} (h : p.Reached) : ∃ f : Fraction, f.parts = p := by
  induction h with
  | ofWords h =>
    rw [ofWords_eq] at h
    exact exists_parts_of_map_eq h
  | whole n => exact ⟨Fraction.whole n, rfl⟩
  | parse _ => exact ⟨_, rfl⟩
  | read _ => exact ⟨_, rfl⟩
  | apply _ _ h iha ihb =>
    obtain ⟨a, rfl⟩ := iha
    obtain ⟨b, rfl⟩ := ihb
    rw [apply_eq] at h
    exact exists_parts_of_map_eq h
  | neg _ h ih =>
    obtain ⟨a, rfl⟩ := ih
    refine ⟨⟨_, a.den, a.den_pos, ?_⟩, rfl⟩
    rw [Word.int64?_eq_some_iff.1 h, Int.natAbs_neg]
    exact a.reduced
  | floor _ ih =>
    obtain ⟨a, rfl⟩ := ih
    exact ⟨Fraction.whole _, rfl⟩
  | fractionalPart _ ih =>
    obtain ⟨a, rfl⟩ := ih
    exact ⟨a.fractionalPart, (fractionalPart_parts a).symm⟩

end Parts

/-- Every operation, and the quotient of any two words, has the exact outcome; the computation in
double words never meets an intermediate result that is too large and has the same outcome; and
every pair that is reached by operations is in lowest terms with a positive denominator. -/
theorem arithmetic_exact (op : Operator) (a b : Fraction) (n d : Int64) {p : Parts}
    (hp : p.Reached) :
    Outcome (op.exact a.toRat b.toRat) (op.apply a b) ∧
      Parts.apply op a.parts b.parts = some ((op.apply a b).map parts) ∧
      Outcome (Operator.exact .div n.toInt d.toInt) (ofWords n d) ∧
      Parts.ofWords n d = some ((ofWords n d).map parts) ∧
      0 < p.den.toInt ∧ p.num.toInt.natAbs.Coprime p.den.toInt.natAbs := by
  obtain ⟨f, rfl⟩ := hp.exists_parts
  exact ⟨outcome_apply op a b, Parts.apply_eq op a b, outcome_ofQuotient n.toInt d.toInt,
    Parts.ofWords_eq n d, f.den_pos, f.reduced⟩

theorem arithmetic_exact_least :
    Parts.Reached ⟨2, 3⟩ ∧
      Operator.div.apply (whole Int64.minValue) (whole (-1)) = .error .overflow ∧
      Parts.apply .div (whole Int64.minValue).parts (whole (-1)).parts =
        some (.error .overflow) ∧
      0 < (3 : Int64).toInt ∧ (2 : Int64).toInt.natAbs.Coprime (3 : Int64).toInt.natAbs := by
  have hquotient : Parts.Reached ⟨-4611686018427387904, 3⟩ :=
    .ofWords (n := Int64.minValue) (d := 6) (by decide +kernel)
  have hreached : Parts.Reached ⟨2, 3⟩ := hquotient.fractionalPart
  obtain ⟨houtcome, hdouble, _, _, hpos, hcoprime⟩ := arithmetic_exact .div
    (whole Int64.minValue) (whole (-1)) Int64.minValue 6 hreached
  have hoverflow : Operator.div.apply (whole Int64.minValue) (whole (-1)) = .error .overflow := by
    refine houtcome.overflow.2 ⟨9223372036854775808, ?_, ?_⟩
    · have hleast := Int64.toInt_minValue
      have hminus : (-1 : Int64).toInt = -1 := by decide
      rw [toRat_whole, toRat_whole, Operator.exact, hleast, hminus]
      norm_num
    · intro h
      exact absurd h.num_le (by decide)
  rw [hoverflow] at hdouble
  exact ⟨hreached, hoverflow, hdouble, hpos, hcoprime⟩

end Fraction
end TargetQuiz

import TargetQuiz.Word

/-! Exact fractions of 64-bit words. Arithmetic is done on unbounded integers and only the reduced
result has to fit the words again; `toRat` is the value of a fraction. -/
namespace TargetQuiz

inductive ArithmeticError where
  | divisionByZero
  | overflow
  deriving DecidableEq, Repr

def ArithmeticError.message : ArithmeticError → String
  | .divisionByZero => "division by zero"
  | .overflow => "arithmetic overflow"

/-- A rational number in lowest terms whose parts fit 64-bit words. The numerator has the sign. -/
structure Fraction where
  num : Int64
  den : Int64
  den_pos : 0 < den.toInt
  reduced : num.toInt.natAbs.Coprime den.toInt.natAbs
  deriving DecidableEq

namespace Fraction

def toRat (f : Fraction) : Rat :=
  ⟨f.num.toInt, f.den.toInt.natAbs, by have := f.den_pos; omega, f.reduced⟩

def whole (n : Int64) : Fraction :=
  ⟨n, 1, by decide, Nat.coprime_one_right _⟩

def zero : Fraction := whole 0

def one : Fraction := whole 1

instance : Inhabited Fraction := ⟨zero⟩

theorem natAbs_mul_sign_ediv (n d : Int) (g : Nat) (hd : d ≠ 0) (hg : g ∣ n.natAbs) :
    (d.sign * n / (g : Int)).natAbs = n.natAbs / g := by
  have hdvd : (g : Int) ∣ d.sign * n := Int.dvd_mul_of_dvd_right (Int.ofNat_dvd_left.2 hg)
  rw [Int.natAbs_ediv_of_dvd hdvd, Int.natAbs_mul, Int.natAbs_sign_of_ne_zero hd, Nat.one_mul,
    Int.natAbs_natCast]

/-- Reduction divides both parts by their greatest common divisor and moves the sign of the
denominator to the numerator, which leaves a positive denominator and coprime parts. -/
theorem lowestTerms {n d : Int} (hd : d ≠ 0) :
    0 < ((d.natAbs / n.natAbs.gcd d.natAbs : Nat) : Int) ∧
      (d.sign * n / (n.natAbs.gcd d.natAbs : Int)).natAbs.Coprime
        ((d.natAbs / n.natAbs.gcd d.natAbs : Nat) : Int).natAbs := by
  have hpos : 0 < n.natAbs.gcd d.natAbs := Nat.gcd_pos_of_pos_right _ (by omega)
  refine ⟨?_, ?_⟩
  · have := Nat.div_pos (Nat.le_of_dvd (by omega) (Nat.gcd_dvd_right n.natAbs d.natAbs)) hpos
    omega
  · rw [natAbs_mul_sign_ediv n d _ hd (Nat.gcd_dvd_left _ _), Int.natAbs_natCast]
    exact Nat.coprime_div_gcd_div_gcd hpos

/-- The quotient of two integers in lowest terms. A zero denominator is an error, and so are
reduced parts that do not fit. -/
def ofQuotient (n d : Int) : Except ArithmeticError Fraction :=
  if hd : d = 0 then .error .divisionByZero
  else
    match hnum : Word.int64? (d.sign * n / (n.natAbs.gcd d.natAbs : Int)),
        hden : Word.int64? (d.natAbs / n.natAbs.gcd d.natAbs : Nat) with
    | some num, some den =>
      .ok ⟨num, den,
        by rw [Word.int64?_eq_some_iff.1 hden]; exact (lowestTerms hd).1,
        by rw [Word.int64?_eq_some_iff.1 hnum, Word.int64?_eq_some_iff.1 hden]
           exact (lowestTerms hd).2⟩
    | _, _ => .error .overflow

def ofWords (n d : Int64) : Except ArithmeticError Fraction := ofQuotient n.toInt d.toInt

def isWhole (f : Fraction) : Bool := f.den == 1

def isZero (f : Fraction) : Bool := f.num == 0

def add (a b : Fraction) : Except ArithmeticError Fraction :=
  ofQuotient (a.num.toInt * b.den.toInt + b.num.toInt * a.den.toInt) (a.den.toInt * b.den.toInt)

def sub (a b : Fraction) : Except ArithmeticError Fraction :=
  ofQuotient (a.num.toInt * b.den.toInt - b.num.toInt * a.den.toInt) (a.den.toInt * b.den.toInt)

def mul (a b : Fraction) : Except ArithmeticError Fraction :=
  ofQuotient (a.num.toInt * b.num.toInt) (a.den.toInt * b.den.toInt)

/-- The quotient; a zero divisor has a zero numerator, so its cross product is the zero
denominator that `ofQuotient` refuses. -/
def div (a b : Fraction) : Except ArithmeticError Fraction :=
  ofQuotient (a.num.toInt * b.den.toInt) (a.den.toInt * b.num.toInt)

def neg (a : Fraction) : Except ArithmeticError Fraction :=
  match h : Word.int64? (-a.num.toInt) with
  | some num =>
    .ok ⟨num, a.den, a.den_pos, by
      rw [Word.int64?_eq_some_iff.1 h, Int.natAbs_neg]; exact a.reduced⟩
  | none => .error .overflow

def floor (f : Fraction) : Int64 := Int64.ofInt (f.num.toInt / f.den.toInt)

theorem emod_coprime (f : Fraction) :
    (f.num.toInt % f.den.toInt).natAbs.Coprime f.den.toInt.natAbs := by
  have h := f.reduced
  rw [Nat.Coprime, ← Int.gcd_eq_natAbs_gcd_natAbs] at h ⊢
  rw [Int.emod_def, Int.mul_comm, Int.gcd_sub_mul_right_left]
  exact h

theorem toInt_emod (f : Fraction) :
    (Int64.ofInt (f.num.toInt % f.den.toInt)).toInt = f.num.toInt % f.den.toInt := by
  have hpos := f.den_pos
  have hlt := Int.emod_lt_of_pos f.num.toInt hpos
  have hnn := Int.emod_nonneg f.num.toInt (Int.ne_of_gt hpos)
  have hmax := f.den.toInt_lt
  exact Int64.toInt_ofInt_of_le (by omega) (by omega)

def fractionalPart (f : Fraction) : Fraction :=
  if f.num.toInt % f.den.toInt = 0 then zero
  -- gcd (n % d) d = gcd n d = 1, so the rest is in lowest terms as it is
  else ⟨Int64.ofInt (f.num.toInt % f.den.toInt), f.den, f.den_pos, by
    rw [toInt_emod]; exact emod_coprime f⟩

def compare (a b : Fraction) : Ordering :=
  Ord.compare (a.num.toInt * b.den.toInt) (b.num.toInt * a.den.toInt)

instance : Ord Fraction := ⟨Fraction.compare⟩

def sort (fs : List Fraction) : List Fraction :=
  fs.mergeSort fun a b => (a.compare b).isLE

instance : Hashable Fraction := ⟨fun f => mixHash (hash f.num) (hash f.den)⟩

end Fraction
end TargetQuiz

/-! White space and decimal numerals. White space is the Unicode property, which has the no-break
spaces and lacks the zero-width characters. -/
namespace TargetQuiz.Text

/-- The code points with the property White_Space, as closed ranges in ascending order. -/
def blankRanges : List (Nat × Nat) :=
  [(0x09, 0x0D), (0x20, 0x20), (0x85, 0x85), (0xA0, 0xA0), (0x1680, 0x1680), (0x2000, 0x200A),
    (0x2028, 0x2029), (0x202F, 0x202F), (0x205F, 0x205F), (0x3000, 0x3000)]

def isBlank (c : Char) : Bool :=
  blankRanges.any fun (first, last) => first ≤ c.toNat && c.toNat ≤ last

def trimLeft (cs : List Char) : List Char := cs.dropWhile isBlank

def trimRight (cs : List Char) : List Char := (cs.reverse.dropWhile isBlank).reverse

def trim (cs : List Char) : List Char := trimRight (trimLeft cs)

theorem isBlank_of_isDigit {c : Char} (h : c.isDigit = true) : isBlank c = false := by
  simp only [Char.isDigit, Bool.and_eq_true, decide_eq_true_eq] at h
  have h₀ : 48 ≤ c.toNat := UInt32.le_iff_toNat_le.1 h.1
  have h₁ : c.toNat ≤ 57 := UInt32.le_iff_toNat_le.1 h.2
  simp only [isBlank, blankRanges, List.any_cons, List.any_nil, Bool.or_eq_false_iff,
    Bool.and_eq_false_iff, decide_eq_false_iff_not, Nat.not_le, and_true]
  omega

end TargetQuiz.Text

namespace TargetQuiz.Numeral

def ofNat (n : Nat) : List Char := Nat.toDigits 10 n

/-- The digits of `n`, with zeros in front up to `width`. -/
def padded (width n : Nat) : List Char :=
  List.replicate (width - (ofNat n).length) '0' ++ ofNat n

def ofInt (z : Int) : List Char :=
  if z < 0 then '-' :: ofNat z.natAbs else ofNat z.natAbs

def value (digits : List Char) : Nat := Nat.ofDigitChars 10 digits 0

def digits? (cs : List Char) : Option Nat :=
  if !cs.isEmpty && cs.all Char.isDigit then some (value cs) else none

def nat? : List Char → Option Nat
  | '+' :: cs => digits? cs
  | cs => digits? cs

def int? : List Char → Option Int
  | '+' :: cs => (digits? cs).map Int.ofNat
  | '-' :: cs => (digits? cs).map Int.negOfNat
  | cs => (digits? cs).map Int.ofNat

theorem isDigit_of_mem_ofNat {n : Nat} {c : Char} (h : c ∈ ofNat n) : c.isDigit = true :=
  Nat.isDigit_of_mem_toDigits (by decide) (by decide) h

theorem ofNat_ne_nil (n : Nat) : ofNat n ≠ [] := Nat.toDigits_ne_nil

theorem value_ofNat (n : Nat) : value (ofNat n) = n :=
  Nat.ofDigitChars_toDigits (by decide) (by decide)

theorem digits?_ofNat (n : Nat) : digits? (ofNat n) = some n := by
  have hall : (ofNat n).all Char.isDigit = true :=
    List.all_eq_true.2 fun _ hc => isDigit_of_mem_ofNat hc
  simp [digits?, hall, ofNat_ne_nil, value_ofNat]

theorem int?_of_isDigit {c : Char} (cs : List Char) (h : c.isDigit = true) :
    int? (c :: cs) = (digits? (c :: cs)).map Int.ofNat := by
  unfold int?
  split
  · rename_i heq
    injection heq with hc _
    simp [hc] at h
  · rename_i heq
    injection heq with hc _
    simp [hc] at h
  · rfl

theorem int?_ofInt (z : Int) : int? (ofInt z) = some z := by
  unfold ofInt
  split
  case isTrue h =>
    change (digits? (ofNat z.natAbs)).map Int.negOfNat = some z
    rw [digits?_ofNat, Option.map_some, Option.some.injEq, Int.negOfNat_eq, Int.ofNat_eq_natCast]
    omega
  case isFalse h =>
    have hread := digits?_ofNat z.natAbs
    cases hd : ofNat z.natAbs with
    | nil => exact absurd hd (ofNat_ne_nil _)
    | cons c cs =>
      have hc : c.isDigit = true := isDigit_of_mem_ofNat (n := z.natAbs) (by simp [hd])
      rw [int?_of_isDigit cs hc, ← hd, hread, Option.map_some, Option.some.injEq,
        Int.ofNat_eq_natCast]
      omega

end TargetQuiz.Numeral

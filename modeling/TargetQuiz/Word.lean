/-! Integers are narrowed to machine words by functions that answer `none` when they do not fit.
Proofs use one equivalence for each width and no more about the representation. -/
namespace TargetQuiz.Word

/-- The signed 64-bit word that denotes `z`, if there is one. -/
def int64? (z : Int) : Option Int64 :=
  if h : Int64.minValue.toInt ≤ z ∧ z ≤ Int64.maxValue.toInt then
    some (Int64.ofIntLE z h.1 h.2)
  else none

def uint64? (n : Nat) : Option UInt64 :=
  if h : n < UInt64.size then some (UInt64.ofNatLT n h) else none

def uint32? (n : Nat) : Option UInt32 :=
  if h : n < UInt32.size then some (UInt32.ofNatLT n h) else none

def uint8? (n : Nat) : Option UInt8 :=
  if h : n < UInt8.size then some (UInt8.ofNatLT n h) else none

/-- Narrowing gives the word that denotes the number, whatever the width and the sign. -/
theorem narrow_eq_some_iff {α β : Type} {p : Prop} [Decidable p] {word : p → β} {denoted : β → α}
    {a : α} {w : β} (hword : ∀ h, denoted (word h) = a) (hinj : ∀ v, denoted v = denoted w → v = w)
    (hrange : denoted w = a → p) :
    (if h : p then some (word h) else none) = some w ↔ denoted w = a := by
  constructor
  · intro hsome
    split at hsome
    · cases hsome
      exact hword _
    · cases hsome
  · intro hdenoted
    rw [dif_pos (hrange hdenoted), hinj _ ((hword _).trans hdenoted.symm)]

theorem int64?_eq_some_iff {z : Int} {w : Int64} : int64? z = some w ↔ w.toInt = z := by
  refine narrow_eq_some_iff (fun _ => Int64.toInt_ofIntLE) (fun _ => Int64.toInt_inj.1) ?_
  rintro rfl
  exact ⟨w.le_toInt, Int.le_sub_one_of_lt w.toInt_lt⟩

theorem int64?_toInt (w : Int64) : int64? w.toInt = some w :=
  int64?_eq_some_iff.2 rfl

theorem exists_int64? {z : Int} (hmin : Int64.minValue.toInt ≤ z)
    (hmax : z ≤ Int64.maxValue.toInt) : ∃ w, int64? z = some w :=
  ⟨_, dif_pos ⟨hmin, hmax⟩⟩

theorem int64?_eq_none_iff {z : Int} :
    int64? z = none ↔ z < Int64.minValue.toInt ∨ Int64.maxValue.toInt < z := by
  rw [int64?]
  split
  · simp only [reduceCtorEq, false_iff]
    omega
  · simp only [true_iff]
    omega

theorem uint64?_eq_some_iff {n : Nat} {w : UInt64} : uint64? n = some w ↔ w.toNat = n :=
  narrow_eq_some_iff (fun _ => UInt64.toNat_ofNatLT) (fun _ => UInt64.toNat_inj.1)
    fun h => h ▸ w.toNat_lt

theorem exists_uint64? {n : Nat} (h : n < UInt64.size) : ∃ w, uint64? n = some w :=
  ⟨_, dif_pos h⟩

theorem uint64?_toNat (w : UInt64) : uint64? w.toNat = some w :=
  uint64?_eq_some_iff.2 rfl

theorem uint32?_eq_some_iff {n : Nat} {w : UInt32} : uint32? n = some w ↔ w.toNat = n :=
  narrow_eq_some_iff (fun _ => UInt32.toNat_ofNatLT) (fun _ => UInt32.toNat_inj.1)
    fun h => h ▸ w.toNat_lt

theorem uint8?_eq_some_iff {n : Nat} {w : UInt8} : uint8? n = some w ↔ w.toNat = n :=
  narrow_eq_some_iff (fun _ => UInt8.toNat_ofNatLT) (fun _ => UInt8.toNat_inj.1)
    fun h => h ▸ w.toNat_lt

/-- The greatest common divisor of two words; that of zero and zero is zero. -/
def gcd (a b : UInt64) : UInt64 := UInt64.ofNat (a.toNat.gcd b.toNat)

end TargetQuiz.Word

import TargetQuiz.Random.Generator

namespace TargetQuiz.Generator

/-- Below a bound that fits a word, a draw gives a remainder of the next word. -/
theorem below_ofNat {n : Nat} (hn : n + 1 < UInt64.size) (g : Generator) :
    (g.below (UInt64.ofNat (n + 1))).1.toNat = g.output.toNat % (n + 1) ∧
      (g.below (UInt64.ofNat (n + 1))).2 = g.step := by
  have hbound : (UInt64.ofNat (n + 1)).toNat = n + 1 := UInt64.toNat_ofNat_of_lt' hn
  have hne : UInt64.ofNat (n + 1) ≠ 0 := by
    intro hzero
    rw [hzero] at hbound
    exact absurd hbound (Nat.succ_ne_zero _).symm
  rw [below, if_neg hne]
  exact ⟨by rw [UInt64.toNat_mod, hbound], rfl⟩

/-- A range whose size fits a word gives its least number and a remainder of the next word. -/
theorem toInt_between {lo hi : Int64} (h : lo < hi)
    (hsize : (hi.toInt - lo.toInt).toNat + 1 < UInt64.size) (g : Generator) :
    (g.between lo hi).1.toInt =
      lo.toInt + (g.output.toNat % ((hi.toInt - lo.toInt).toNat + 1) : Nat) := by
  have hlt : lo.toInt < hi.toInt := Int64.lt_iff_toInt_lt.1 h
  have hmod : g.output.toNat % ((hi.toInt - lo.toInt).toNat + 1) <
      (hi.toInt - lo.toInt).toNat + 1 := Nat.mod_lt _ (Nat.succ_pos _)
  have hlo := lo.le_toInt
  have hhi := hi.toInt_lt
  rw [between, if_neg (Int64.not_le.2 h)]
  simp only [(below_ofNat hsize g).1]
  exact Int64.toInt_ofInt_of_le (by omega) (by omega)

theorem between_bounds (lo hi : Int64) (hlo : 0 ≤ lo.toInt) (g : Generator) :
    lo.toInt ≤ (g.between lo hi).1.toInt ∧
      (g.between lo hi).1.toInt ≤ max lo.toInt hi.toInt := by
  by_cases h : hi ≤ lo
  · rw [between, if_pos h]
    exact ⟨Int.le_refl _, Int.le_max_left _ _⟩
  · have hlt := Int64.not_le.1 h
    have hhi := hi.toInt_lt
    have hsize : (hi.toInt - lo.toInt).toNat + 1 < UInt64.size := by
      rw [UInt64.size]
      omega
    have hmod : g.output.toNat % ((hi.toInt - lo.toInt).toNat + 1) <
        (hi.toInt - lo.toInt).toNat + 1 := Nat.mod_lt _ (Nat.succ_pos _)
    rw [toInt_between hlt hsize]
    have hltInt := Int64.lt_iff_toInt_lt.1 hlt
    omega

theorem between_bounds_of_le (lo hi : Int64) (hlo : 0 ≤ lo.toInt) (hle : lo.toInt ≤ hi.toInt)
    (g : Generator) :
    lo.toInt ≤ (g.between lo hi).1.toInt ∧ (g.between lo hi).1.toInt ≤ hi.toInt := by
  have hbounds := between_bounds lo hi hlo g
  rwa [Int.max_eq_right hle] at hbounds

theorem drawWithin_eq_some {α : Type} {draw : Generator → α × Generator} {accepted : α → Bool}
    {limit : Nat} {g g' : Generator} {a : α} (h : drawWithin draw accepted limit g = some (a, g')) :
    accepted a = true ∧ ∃ before, draw before = (a, g') := by
  induction limit generalizing g with
  | zero => cases h
  | succ limit ih =>
    obtain ⟨b, next, hdraw⟩ : ∃ b next, draw g = (b, next) := ⟨_, _, rfl⟩
    simp only [drawWithin, hdraw] at h
    by_cases haccepted : accepted b = true
    · rw [if_pos haccepted] at h
      cases h
      exact ⟨haccepted, g, hdraw⟩
    · rw [if_neg haccepted] at h
      exact ih h

theorem drawUntil_eq_some {α : Type} {draw : Generator → α × Generator} {accepted : α → Bool}
    {g g' : Generator} {a : α} (h : drawUntil draw accepted g = some (a, g')) :
    accepted a = true ∧ ∃ before, draw before = (a, g') := drawWithin_eq_some h

theorem drawUntil_of_accepted {α : Type} {draw : Generator → α × Generator} {accepted : α → Bool}
    {g : Generator} (h : accepted (draw g).1 = true) :
    drawUntil draw accepted g = some (draw g) := by
  obtain ⟨limit, hlimit⟩ : ∃ limit, stateCount = limit + 1 := ⟨stateCount - 1, rfl⟩
  rw [drawUntil, hlimit, drawWithin]
  exact if_pos h

theorem draws_eq_some {α : Type} {draw : Generator → Option (α × Generator)} {P : α → Prop}
    (hdraw : ∀ {g a g'}, draw g = some (a, g') → P a) {n : Nat} {g g' : Generator} {as : List α}
    (h : draws draw n g = some (as, g')) : as.length = n ∧ ∀ a ∈ as, P a := by
  induction n generalizing g as with
  | zero =>
    cases h
    exact ⟨rfl, by simp⟩
  | succ n ih =>
    simp only [draws, Option.bind_eq_bind, Option.bind_eq_some_iff] at h
    obtain ⟨⟨a, next⟩, ha, ⟨rest, last⟩, hrest, heq⟩ := h
    cases heq
    obtain ⟨hlength, hall⟩ := ih hrest
    exact ⟨congrArg (· + 1) hlength, List.forall_mem_cons.2 ⟨hdraw ha, hall⟩⟩

theorem draws_append {α : Type} {draw : Generator → Option (α × Generator)} {m n : Nat}
    {g g' g'' : Generator} {as bs : List α} (has : draws draw m g = some (as, g'))
    (hbs : draws draw n g' = some (bs, g'')) :
    draws draw (m + n) g = some (as ++ bs, g'') := by
  induction m generalizing g as with
  | zero =>
    cases has
    rw [Nat.zero_add, hbs, List.nil_append]
  | succ m ih =>
    simp only [draws, Option.bind_eq_bind, Option.bind_eq_some_iff] at has
    obtain ⟨⟨a, next⟩, ha, ⟨rest, last⟩, hrest, heq⟩ := has
    cases heq
    rw [Nat.succ_add]
    simp [draws, ha, ih hrest]

theorem swapIfInBounds_perm {α : Type} (xs : Array α) (i j : Nat) :
    (xs.swapIfInBounds i j).Perm xs := by
  unfold Array.swapIfInBounds
  split
  · split
    · exact Array.swap_perm _ _
    · exact .refl _
  · exact .refl _

theorem swapAll_perm {α : Type} (xs : Array α) (js : List Nat) : (swapAll xs js).Perm xs := by
  induction js generalizing xs with
  | nil => exact .refl _
  | cons j js ih => exact (ih _).trans (swapIfInBounds_perm xs _ _)

theorem shuffle_perm {α : Type} (xs : List α) (g : Generator) : (g.shuffle xs).1.Perm xs := by
  have h := (swapAll_perm xs.toArray (g.partners (xs.length - 1)).1).toList
  simpa [shuffle] using h

end TargetQuiz.Generator

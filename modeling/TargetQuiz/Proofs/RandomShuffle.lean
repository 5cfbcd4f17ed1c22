import Mathlib.Data.List.Permutation
import Mathlib.Data.Set.Card
import Mathlib.Data.Set.Function
import TargetQuiz.Proofs.RandomStep

/-! What is swapped into a position stays there, so the partners can be read off the result, and
each arrangement of different elements comes from one choice of partners. -/
namespace TargetQuiz.Generator

/-- Partners for the positions from their number down to one, each at most its position. -/
def Partnered : List Nat → Prop
  | [] => True
  | j :: js => j ≤ js.length + 1 ∧ Partnered js

theorem length_partners (last : Nat) (g : Generator) : (partners last g).1.length = last := by
  induction last generalizing g with
  | zero => rfl
  | succ last ih => simp [partners, ih]

theorem partnered_partners {last : Nat} (hlast : last + 1 < UInt64.size) (g : Generator) :
    Partnered (partners last g).1 := by
  induction last generalizing g with
  | zero => trivial
  | succ last ih =>
    rw [partners_succ hlast, Partnered, length_partners]
    exact ⟨Nat.le_of_lt_succ (Nat.mod_lt _ (Nat.succ_pos _)), ih (Nat.lt_of_succ_lt hlast) _⟩

theorem partners_eq_map {last : Nat} (hlast : last + 1 < UInt64.size) (g : Generator) :
    (partners last g).1 =
      (List.range last).map fun k => (step^[k] g).output.toNat % (last + 1 - k) := by
  induction last generalizing g with
  | zero => rfl
  | succ last ih =>
    rw [partners_succ hlast, ih (Nat.lt_of_succ_lt hlast), List.range_succ_eq_map, List.map_cons,
      List.map_map]
    refine congrArg (g.output.toNat % (last + 2) :: ·) (List.map_congr_left ?_)
    intro k _
    simp [Nat.add_sub_add_right]

section Swaps

variable {α : Type} {xs ys : Array α}

theorem getElem?_swap_left {i j : Nat} (hi : i < xs.size) (hj : j < xs.size) :
    (xs.swapIfInBounds i j)[i]? = xs[j]? := by
  rw [Array.getElem?_eq_getElem hj, Array.getElem?_eq_getElem (by simpa using hi),
    Array.getElem_swapIfInBounds_left hj]

theorem getElem?_swap_of_lt {i j k : Nat} (hi : i < k) (hj : j < k) :
    (xs.swapIfInBounds i j)[k]? = xs[k]? := by
  by_cases hk : k < xs.size
  · rw [Array.getElem?_eq_getElem hk, Array.getElem?_eq_getElem (by simpa using hk),
      Array.getElem_swapIfInBounds_of_ne_of_ne (by omega) (by omega)]
  · rw [Array.getElem?_eq_none (by simpa using hk), Array.getElem?_eq_none (by simpa using hk)]

/-- Positions behind those that are swapped keep what they have. -/
theorem getElem?_swapAll {js : List Nat} (hjs : Partnered js) {k : Nat} (hk : js.length < k) :
    (swapAll xs js)[k]? = xs[k]? := by
  induction js generalizing xs with
  | nil => rfl
  | cons j js ih =>
    obtain ⟨hj, hjs⟩ := hjs
    rw [List.length_cons] at hk
    rw [swapAll, ih hjs (by omega), getElem?_swap_of_lt hk (by omega)]

/-- The position that is swapped first gets what its partner had. -/
theorem getElem?_swapAll_cons {j : Nat} {js : List Nat} (hjs : Partnered (j :: js))
    (hsize : js.length + 1 < xs.size) : (swapAll xs (j :: js))[js.length + 1]? = xs[j]? := by
  obtain ⟨hj, hjs⟩ := hjs
  rw [swapAll, getElem?_swapAll hjs (Nat.lt_succ_self _), getElem?_swap_left hsize (by omega)]

theorem getElem?_inj_of_nodup (hxs : xs.toList.Nodup) {i j : Nat} (hi : i < xs.size)
    (h : xs[i]? = xs[j]?) : i = j := by
  rw [← Array.getElem?_toList, ← Array.getElem?_toList] at h
  exact (List.getElem?_inj hi hxs).1 h

theorem nodup_swap (hxs : xs.toList.Nodup) (i j : Nat) :
    (xs.swapIfInBounds i j).toList.Nodup :=
  (swapIfInBounds_perm xs i j).toList.nodup_iff.2 hxs

theorem partners_unique {js ts : List Nat} (hxs : xs.toList.Nodup) (hjs : Partnered js)
    (hts : Partnered ts) (hlength : js.length = ts.length) (hle : js.length ≤ xs.size - 1)
    (heq : swapAll xs js = swapAll xs ts) : js = ts := by
  induction js generalizing xs ts with
  | nil => exact (List.eq_nil_of_length_eq_zero hlength.symm).symm
  | cons j js ih =>
    obtain ⟨t, ts, rfl⟩ := List.exists_cons_of_length_eq_add_one hlength.symm
    rw [List.length_cons] at hle
    have hsame : js.length = ts.length := Nat.succ.inj hlength
    have hread : xs[j]? = xs[t]? := by
      rw [← getElem?_swapAll_cons hjs (by omega), heq, hsame,
        getElem?_swapAll_cons hts (by omega)]
    have hj : j = t := getElem?_inj_of_nodup hxs (Nat.lt_of_le_of_lt hjs.1 (by omega)) hread
    subst hj
    rw [swapAll, swapAll, hsame] at heq
    have hrest : js = ts :=
      ih (nodup_swap hxs _ _) hjs.2 hts.2 hsame (by rw [Array.size_swapIfInBounds]; omega) heq
    rw [hrest]

/-- When what is behind a position is kept, its new element was not behind it before. -/
theorem exists_partner {p : Nat} (hys : ys.toList.Nodup) (hperm : ys.Perm xs) (hp : p < ys.size)
    (hkept : ∀ k, p < k → ys[k]? = xs[k]?) : ∃ j, j ≤ p ∧ ys[p]? = xs[j]? := by
  have hmem : ys[p] ∈ xs := hperm.mem_iff.1 (Array.getElem_mem hp)
  obtain ⟨j, hj, hget⟩ := Array.mem_iff_getElem.1 hmem
  have hfrom : ys[p]? = xs[j]? := by
    rw [Array.getElem?_eq_getElem hp, Array.getElem?_eq_getElem hj, hget]
  refine ⟨j, ?_, hfrom⟩
  by_contra hlt
  rw [← hkept j (by omega)] at hfrom
  exact hlt (Nat.le_of_eq (getElem?_inj_of_nodup hys hp hfrom).symm)

/-- An arrangement that keeps what is behind a position comes from partners for the positions from
it down to one. -/
theorem exists_partners {last : Nat} (hxs : xs.toList.Nodup) (hperm : ys.Perm xs)
    (hlast : last ≤ xs.size - 1) (hkept : ∀ k, last < k → ys[k]? = xs[k]?) :
    ∃ js, js.length = last ∧ Partnered js ∧ swapAll xs js = ys := by
  have hys : ys.toList.Nodup := hperm.toList.nodup_iff.2 hxs
  have hsize : ys.size = xs.size := hperm.toList.length_eq
  induction last generalizing xs with
  | zero =>
    refine ⟨[], rfl, trivial, Array.ext_getElem? fun k => ?_⟩
    change xs[k]? = ys[k]?
    rcases Nat.eq_zero_or_pos k with rfl | hk
    · by_cases hempty : ys.size = 0
      · rw [Array.getElem?_eq_none (by omega), Array.getElem?_eq_none (by omega)]
      · obtain ⟨j, hj, hfrom⟩ := exists_partner hys hperm (Nat.pos_of_ne_zero hempty) hkept
        rw [hfrom, Nat.le_zero.1 hj]
    · exact (hkept k hk).symm
  | succ last ih =>
    obtain ⟨j, hj, hfrom⟩ := exists_partner hys hperm (by omega) hkept
    have hkeptLess : ∀ k, last < k → ys[k]? = (xs.swapIfInBounds (last + 1) j)[k]? := by
      intro k hk
      rcases Nat.lt_or_eq_of_le hk with hlt | rfl
      · rw [getElem?_swap_of_lt hlt (by omega), hkept k hlt]
      · rw [hfrom, getElem?_swap_left (by omega) (by omega)]
    obtain ⟨js, hlength, hjs, heq⟩ := ih (nodup_swap hxs _ _)
      (hperm.trans (swapIfInBounds_perm xs _ _).symm)
      (by rw [Array.size_swapIfInBounds]; omega) hkeptLess
      (by rw [Array.size_swapIfInBounds, hsize])
    refine ⟨j :: js, by rw [List.length_cons, hlength], ⟨by omega, hjs⟩, ?_⟩
    rw [swapAll, hlength, heq]

end Swaps

def arranged {α : Type} (xs : List α) (js : List Nat) : List α := (swapAll xs.toArray js).toList

/-- Partners for the positions of a list correspond to its arrangements, when its elements are
different. -/
theorem bijOn_arranged {α : Type} {xs : List α} (hxs : xs.Nodup) :
    Set.BijOn (arranged xs) {js | js.length = xs.length - 1 ∧ Partnered js} {ys | ys.Perm xs} := by
  have hnodup : xs.toArray.toList.Nodup := hxs
  refine ⟨?_, ?_, ?_⟩
  · intro js _
    exact (swapAll_perm xs.toArray js).toList
  · intro js hjs ts hts heq
    have heq : swapAll xs.toArray js = swapAll xs.toArray ts := Array.toList_inj.1 heq
    exact partners_unique hnodup hjs.2 hts.2 (hjs.1.trans hts.1.symm) (Nat.le_of_eq hjs.1) heq
  · intro ys hys
    have hperm : ys.toArray.Perm xs.toArray := Array.perm_iff_toList_perm.2 hys
    have hlength : ys.length = xs.length := hys.length_eq
    have hbehind : ∀ k, xs.length - 1 < k → ys.toArray[k]? = xs.toArray[k]? := by
      intro k hk
      rw [List.getElem?_toArray, List.getElem?_toArray, List.getElem?_eq_none (by omega),
        List.getElem?_eq_none (by omega)]
    obtain ⟨js, hjs, hpartnered, heq⟩ := exists_partners hnodup hperm (Nat.le_refl _) hbehind
    exact ⟨js, ⟨hjs, hpartnered⟩, congrArg Array.toList heq⟩

theorem ncard_arrangements {α : Type} {xs : List α} (hxs : xs.Nodup) :
    {ys : List α | ys.Perm xs}.ncard = xs.length.factorial := by
  classical
  have hset : {ys : List α | ys.Perm xs} = (xs.permutations.toFinset : Set (List α)) := by
    ext ys
    simp
  rw [hset, Set.ncard_coe_finset, List.toFinset_card_of_nodup (List.nodup_permutations xs hxs),
    List.length_permutations]

/-- A shuffle rearranges with one word for each position but the first, by partners that are the
remainders of these words. When the elements are different, the choices of partners correspond to
the arrangements, of which there are as many as the factorial of their number. -/
theorem shuffle_fair {α : Type} {xs : List α} (hxs : xs.length < UInt64.size) (g : Generator) :
    (g.shuffle xs).1.Perm xs ∧ (g.shuffle xs).2 = step^[xs.length - 1] g ∧
      (∃ js, js.length = xs.length - 1 ∧ Partnered js ∧ (g.shuffle xs).1 = arranged xs js ∧
        js = (List.range (xs.length - 1)).map
          fun k => (step^[k] g).output.toNat % (xs.length - k)) ∧
      (xs.Nodup →
        Set.BijOn (arranged xs) {js | js.length = xs.length - 1 ∧ Partnered js}
          {ys | ys.Perm xs} ∧
        {ys : List α | ys.Perm xs}.ncard = xs.length.factorial) := by
  have hlast : xs.length - 1 + 1 < UInt64.size := pred_succ_lt_size hxs
  refine ⟨shuffle_perm xs g, shuffle_snd hxs g, ?_, fun hnodup =>
    ⟨bijOn_arranged hnodup, ncard_arrangements hnodup⟩⟩
  refine ⟨_, length_partners _ g, partnered_partners hlast g, rfl, ?_⟩
  rw [partners_eq_map hlast]
  apply List.map_congr_left
  intro k hk
  have hk : k < xs.length - 1 := List.mem_range.1 hk
  have hcount : xs.length - 1 + 1 - k = xs.length - k := by omega
  rw [hcount]

/-- Three elements have six arrangements. -/
theorem shuffle_fair_three :
    [7, 8, 9].length < UInt64.size ∧ [7, 8, 9].Nodup ∧
      ((ofSeed 1).shuffle [7, 8, 9]).1.Perm [7, 8, 9] ∧
      ((ofSeed 1).shuffle [7, 8, 9]).2 = step^[2] (ofSeed 1) ∧
      Set.BijOn (arranged [7, 8, 9]) {js | js.length = 2 ∧ Partnered js}
        {ys : List Nat | ys.Perm [7, 8, 9]} ∧
      {ys : List Nat | ys.Perm [7, 8, 9]}.ncard = 6 := by
  have hlength : [7, 8, 9].length < UInt64.size := by decide
  have hnodup : [7, 8, 9].Nodup := by decide
  obtain ⟨hperm, hsteps, -, hfair⟩ := shuffle_fair hlength (ofSeed 1)
  exact ⟨hlength, hnodup, hperm, hsteps, hfair hnodup⟩

end TargetQuiz.Generator

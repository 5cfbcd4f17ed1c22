import TargetQuiz.Proofs.ChainSearch

/-! Completeness of the search. States that agree in value and positions go on alike, so keeping one
of them hides no value. Chains are the left folds over distinct positions of the list. -/
namespace TargetQuiz.Chain

/-- Every state for chains of `n` of the picks has a state of the same key in the level. -/
def Covers (picks : List Pick) (n : Nat) (level : List Reached) : Prop :=
  ∀ r, Grown picks n r → ∃ r' ∈ level, r'.key = r.key

theorem exists_mem_distinctKeys {rs : List Reached} {r : Reached} (h : r ∈ rs) :
    ∃ r' ∈ distinctKeys rs, r'.key = r.key := by
  induction rs with
  | nil => simp at h
  | cons s rs ih =>
    by_cases hkey : r.key = s.key
    · exact ⟨s, by simp [distinctKeys], hkey.symm⟩
    · have hmem : r ∈ rs := by
        rcases List.mem_cons.1 h with rfl | hmem
        · exact absurd rfl hkey
        · exact hmem
      obtain ⟨r', hr', heq⟩ := ih hmem
      refine ⟨r', ?_, heq⟩
      simp [distinctKeys, hr', heq, hkey]

theorem Reached.extend?_of_key {r s r' : Reached} {pick : Pick} {op : Operator}
    (hkey : s.key = r.key) (h : r.extend? pick op = some r') :
    ∃ s', s.extend? pick op = some s' ∧ s'.key = r'.key := by
  obtain ⟨value, happly, rfl⟩ := Reached.extend?_eq_some_iff.1 h
  have hvalue : s.value = r.value := congrArg Prod.fst hkey
  have hused : s.used = r.used := congrArg Prod.snd hkey
  refine ⟨_, Reached.extend?_eq_some_iff.2 ⟨value, by rwa [hvalue], rfl⟩, ?_⟩
  simp [Reached.key, hused]

theorem covers_first (picks : List Pick) : Covers picks 1 (picks.map Reached.ofPick) := by
  intro r hr
  cases hr with
  | start hpick => exact ⟨_, List.mem_map_of_mem hpick, rfl⟩
  | link hgrown => cases hgrown

theorem covers_nextLevel {picks : List Pick} {n : Nat} {level : List Reached} (hn : 0 < n)
    (hcovers : Covers picks n level) : Covers picks (n + 1) (nextLevel picks level) := by
  intro r hr
  cases hr with
  | start => simp at hn
  | @link _ before _ pick op hgrown hpick hfree hextend =>
    obtain ⟨kept, hkept, hkey⟩ := hcovers before hgrown
    obtain ⟨next, hnext, hnextKey⟩ := Reached.extend?_of_key hkey hextend
    have hused : kept.used = before.used := congrArg Prod.snd hkey
    have hsuccessor : next ∈ level.flatMap (Reached.successors picks) := by
      refine List.mem_flatMap.2 ⟨kept, hkept, Reached.mem_successors_iff.2 ?_⟩
      exact ⟨pick, hpick, by rwa [hused], op, hnext⟩
    obtain ⟨r', hr', heq⟩ := exists_mem_distinctKeys hsuccessor
    exact ⟨r', by rwa [nextLevel, firstOfKey_eq], heq.trans hnextKey⟩

theorem Covers.exists_value {picks : List Pick} {n : Nat} {level : List Reached} {s : Reached}
    (hcovers : Covers picks n level) (hs : Grown picks n s) :
    ∃ r ∈ level, r.value = s.value := by
  obtain ⟨r, hr, hkey⟩ := hcovers s hs
  exact ⟨r, hr, congrArg Prod.fst hkey⟩

/-- What is found below a level is as short as any longer chain with the value, and when nothing is
found there is no such chain down to the depth. -/
theorem deepen_spec {picks : List Pick} (target : Fraction) (depth : Nat) {n : Nat}
    {level : List Reached} (hn : 0 < n) (hlevel : ∀ r ∈ level, Grown picks n r)
    (hcovers : Covers picks n level) :
    match deepen picks target depth level with
    | some r => ∀ m s, n < m → Grown picks m s → s.value = target → r.chain.picks.length ≤ m
    | none => ∀ m s, n < m → Grown picks m s → s.value = target → n + depth < m := by
  induction depth generalizing n level with
  | zero =>
    intro m s hm _ _
    simpa using hm
  | succ depth ih =>
    have hnext := grown_of_mem_nextLevel hlevel
    have hcoversNext := covers_nextLevel hn hcovers
    rw [deepen]
    cases hfind : (nextLevel picks level).find? (·.value == target) with
    | some r =>
      intro m s hm _ _
      have hr := hnext r (List.mem_of_find?_eq_some hfind)
      simp only [hr.length]
      omega
    | none =>
      -- The next level has no state with the value, so a chain with the value is longer still.
      have hlonger : ∀ m s, n < m → Grown picks m s → s.value = target → n + 1 < m := by
        intro m s hm hs hvalue
        rcases Nat.lt_or_ge (n + 1) m with hlt | hge
        · exact hlt
        · obtain rfl : m = n + 1 := by omega
          obtain ⟨r, hr, heq⟩ := hcoversNext.exists_value hs
          have hnot := List.find?_eq_none.1 hfind r hr
          simp [heq, hvalue] at hnot
      have hrest := ih (Nat.succ_pos n) hnext hcoversNext
      dsimp only
      split
      · rename_i r hfound
        rw [hfound] at hrest
        intro m s hm hs hvalue
        exact hrest m s (hlonger m s hm hs hvalue) hs hvalue
      · rename_i hfound
        rw [hfound] at hrest
        intro m s hm hs hvalue
        have := hrest m s (hlonger m s hm hs hvalue) hs hvalue
        omega

theorem Over.grown {picks : List Pick} {chain : Chain} {value : Fraction}
    (hover : chain.Over picks) (hvalue : chain.value = .ok value) :
    ∃ used, Grown picks chain.picks.length ⟨chain, value, used⟩ := by
  induction chain generalizing value with
  | start pick =>
    cases hvalue
    exact ⟨_, .start (hover.mem pick (by simp [Chain.picks]))⟩
  | link chain op pick ih =>
    obtain ⟨before, hbefore, happly⟩ := bind_eq_ok_iff.1 hvalue
    have hdistinct := hover.distinct
    rw [Chain.picks, List.map_append, List.nodup_append] at hdistinct
    have hprefix : chain.Over picks :=
      ⟨fun p hp => hover.mem p (by simp [Chain.picks, hp]), hdistinct.1⟩
    obtain ⟨used, hgrown⟩ := ih hprefix hbefore
    have hfree : used.testBit pick.2 = false := by
      rw [← Bool.not_eq_true, hgrown.used]
      intro hmem
      exact hdistinct.2.2 _ hmem _ (by simp) rfl
    refine ⟨used ||| 1 <<< pick.2, ?_⟩
    rw [Chain.picks, List.length_append]
    exact .link hgrown (hover.mem pick (by simp [Chain.picks])) hfree
      (Reached.extend?_eq_some_iff.2 ⟨value, happly, rfl⟩)

theorem Over.length_le {numbers : List Int64} {chain : Chain} (h : chain.Over numbers.zipIdx) :
    chain.picks.length ≤ numbers.length := by
  have := h.operands_subperm.length_le
  simpa [operands] using this

/-- The search finds a chain that is no longer than a given one. -/
theorem search?_complete {numbers : List Int64} {target : Fraction} {limit : Nat} {chain : Chain}
    (hsize : numbers.length ≤ maxNumbers) (hover : chain.Over numbers.zipIdx)
    (hvalue : chain.value = .ok target) (htwo : 2 ≤ chain.picks.length)
    (hlimit : chain.picks.length ≤ limit) :
    ∃ found, search? numbers target limit = some found ∧
      found.picks.length ≤ chain.picks.length := by
  have hlength := hover.length_le
  obtain ⟨used, hgrown⟩ := hover.grown hvalue
  have hfirst : ∀ r ∈ numbers.zipIdx.map Reached.ofPick, Grown numbers.zipIdx 1 r := by
    intro r hr
    obtain ⟨pick, hpick, rfl⟩ := List.mem_map.1 hr
    exact .start hpick
  have hspec := deepen_spec target (min limit numbers.length - 1) Nat.one_pos hfirst
    (covers_first _)
  have hguard : ¬(numbers.length < 2 ∨ maxNumbers < numbers.length ∨ limit < 2) := by omega
  rw [search?, if_neg hguard]
  dsimp only
  split at hspec
  · rename_i r hfound
    rw [hfound]
    exact ⟨r.chain, rfl, hspec _ _ htwo hgrown rfl⟩
  · have := hspec _ _ htwo hgrown rfl
    omega

/-- A left fold over a list of numbers: the position of its first number, then an operator and a
position for each further number. -/
structure Fold (numbers : List Int64) where
  first : Fin numbers.length
  steps : List (Operator × Fin numbers.length)

namespace Fold

variable {numbers : List Int64}

def positions (fold : Fold numbers) : List (Fin numbers.length) :=
  fold.first :: fold.steps.map (·.2)

def operands (fold : Fold numbers) : List Int64 := fold.positions.map numbers.get

def value (fold : Fold numbers) : Except ArithmeticError Fraction :=
  fold.steps.foldlM (fun value step => step.1.apply value (Fraction.whole (numbers.get step.2)))
    (Fraction.whole (numbers.get fold.first))

/-- A fold over two to `limit` distinct positions that has the value `target`. -/
structure Reaches (fold : Fold numbers) (target : Fraction) (limit : Nat) : Prop where
  distinct : fold.positions.Nodup
  two_le : 2 ≤ fold.positions.length
  length_le : fold.positions.length ≤ limit
  value : fold.value = .ok target

def pickAt (i : Fin numbers.length) : Pick := (numbers.get i, i)

def linkAll (chain : Chain) (steps : List (Operator × Fin numbers.length)) : Chain :=
  steps.foldl (fun chain step => .link chain step.1 (pickAt step.2)) chain

def chain (fold : Fold numbers) : Chain := linkAll (.start (pickAt fold.first)) fold.steps

theorem picks_linkAll (chain : Chain) (steps : List (Operator × Fin numbers.length)) :
    (linkAll chain steps).picks = chain.picks ++ steps.map fun step => pickAt step.2 := by
  induction steps generalizing chain with
  | nil => simp [linkAll]
  | cons step steps ih =>
    have hrest := ih (.link chain step.1 (pickAt step.2))
    simpa [linkAll, Chain.picks] using hrest

theorem value_linkAll (chain : Chain) (steps : List (Operator × Fin numbers.length)) :
    (linkAll chain steps).value = (chain.value >>= fun value => steps.foldlM
      (fun value step => step.1.apply value (Fraction.whole (numbers.get step.2))) value) := by
  induction steps generalizing chain with
  | nil => simp [linkAll]
  | cons step steps ih =>
    have hrest := ih (.link chain step.1 (pickAt step.2))
    simpa [linkAll, Chain.value, pickAt] using hrest

theorem picks_chain (fold : Fold numbers) : fold.chain.picks = fold.positions.map pickAt := by
  simp [chain, picks_linkAll, positions, Chain.picks]

theorem value_chain (fold : Fold numbers) : fold.chain.value = fold.value :=
  value_linkAll (.start (pickAt fold.first)) fold.steps

theorem operands_chain (fold : Fold numbers) : fold.chain.operands = fold.operands := by
  simp [Chain.operands, picks_chain, operands, pickAt]

theorem length_picks_chain (fold : Fold numbers) :
    fold.chain.picks.length = fold.positions.length := by
  simp [picks_chain]

theorem chain_over {fold : Fold numbers} (h : fold.positions.Nodup) :
    fold.chain.Over numbers.zipIdx := by
  constructor
  · intro pick hpick
    rw [picks_chain] at hpick
    obtain ⟨i, _, rfl⟩ := List.mem_map.1 hpick
    simp [pickAt, List.mem_zipIdx_iff_getElem?]
  · rw [picks_chain, List.map_map]
    exact h.map fun _ _ heq => Fin.ext heq

theorem exists_pickAt {pick : Pick} (h : pick ∈ numbers.zipIdx) :
    ∃ i : Fin numbers.length, pickAt i = pick := by
  obtain ⟨hlt, hget⟩ := List.getElem?_eq_some_iff.1 (List.mem_zipIdx_iff_getElem?.1 h)
  exact ⟨⟨pick.2, hlt⟩, Prod.ext hget rfl⟩

theorem exists_chain_eq {chain : Chain} (h : ∀ pick ∈ chain.picks, pick ∈ numbers.zipIdx) :
    ∃ fold : Fold numbers, fold.chain = chain := by
  induction chain with
  | start pick =>
    obtain ⟨i, rfl⟩ := exists_pickAt (h pick (by simp [picks]))
    exact ⟨⟨i, []⟩, rfl⟩
  | link chain op pick ih =>
    obtain ⟨fold, rfl⟩ := ih fun p hp => h p (by simp [picks, hp])
    obtain ⟨i, rfl⟩ := exists_pickAt (h pick (by simp [picks]))
    refine ⟨⟨fold.first, fold.steps ++ [(op, i)]⟩, ?_⟩
    simp [Fold.chain, linkAll]

theorem nodup_positions {fold : Fold numbers} (h : fold.chain.Over numbers.zipIdx) :
    fold.positions.Nodup := by
  have hdistinct := h.distinct
  rw [picks_chain, List.map_map] at hdistinct
  exact hdistinct.of_map _

theorem Reaches.exists_search {fold : Fold numbers} {target : Fraction} {limit : Nat}
    (hsize : numbers.length ≤ maxNumbers) (h : fold.Reaches target limit) :
    ∃ found, search? numbers target limit = some found ∧
      found.picks.length ≤ fold.positions.length := by
  have hvalue : fold.chain.value = .ok target := by rw [value_chain, h.value]
  rw [← length_picks_chain]
  apply search?_complete hsize (chain_over h.distinct) hvalue
  · rw [length_picks_chain]
    exact h.two_le
  · rw [length_picks_chain]
    exact h.length_le

theorem exists_reaches_of_search {target : Fraction} {limit : Nat} {chain : Chain}
    (h : search? numbers target limit = some chain) :
    ∃ fold : Fold numbers, fold.chain = chain ∧ fold.Reaches target limit := by
  obtain ⟨hvalue, hover, htwo, hlimit⟩ := search?_sound h
  obtain ⟨fold, rfl⟩ := exists_chain_eq hover.mem
  rw [length_picks_chain] at htwo hlimit
  rw [value_chain] at hvalue
  exact ⟨fold, rfl, nodup_positions hover, htwo, hlimit, hvalue⟩

end Fold

/-- Over a list that is not too long the search has a solution exactly when a left fold over
distinct positions reaches the target within the limit, and then the operands of the solution are
those of a shortest such fold. -/
theorem searchWithin_shortest {numbers : List Int64} (hsize : numbers.length ≤ maxNumbers)
    (target : Fraction) (limit : Nat) :
    ((searchWithin numbers target limit).isSome = true ↔
      ∃ fold : Fold numbers, fold.Reaches target limit) ∧
    ∀ solution, searchWithin numbers target limit = some solution →
      ∃ fold : Fold numbers, fold.Reaches target limit ∧ fold.operands = solution.operands ∧
        ∀ other : Fold numbers, other.Reaches target limit →
          fold.positions.length ≤ other.positions.length := by
  refine ⟨⟨?_, ?_⟩, ?_⟩
  · intro hsome
    obtain ⟨solution, h⟩ := Option.isSome_iff_exists.1 hsome
    obtain ⟨chain, hsearch, _⟩ := Option.map_eq_some_iff.1 h
    obtain ⟨fold, _, hreaches⟩ := Fold.exists_reaches_of_search hsearch
    exact ⟨fold, hreaches⟩
  · rintro ⟨fold, hreaches⟩
    obtain ⟨found, hfound, _⟩ := hreaches.exists_search hsize
    simp [searchWithin, hfound]
  · intro solution h
    obtain ⟨chain, hsearch, rfl⟩ := Option.map_eq_some_iff.1 h
    obtain ⟨fold, rfl, hreaches⟩ := Fold.exists_reaches_of_search hsearch
    refine ⟨fold, hreaches, fold.operands_chain.symm, ?_⟩
    intro other hother
    obtain ⟨found, hfound, hle⟩ := hother.exists_search hsize
    rw [hsearch] at hfound
    cases hfound
    rwa [fold.length_picks_chain] at hle

theorem searchWithin_shortest_signed :
    [(3 : Int64), 0, 3, -2].length ≤ maxNumbers ∧
      ∃ solution, searchWithin [3, 0, 3, -2] (Fraction.whole 4) 4 = some solution ∧
        solution.operands.length ≤ 3 := by
  have hsize : [(3 : Int64), 0, 3, -2].length ≤ maxNumbers := by decide
  obtain ⟨hiff, hshortest⟩ := searchWithin_shortest hsize (Fraction.whole 4) 4
  let sum : Fold [(3 : Int64), 0, 3, -2] := ⟨0, [(.add, 2), (.add, 3)]⟩
  have hsum : sum.Reaches (Fraction.whole 4) 4 :=
    ⟨by decide, by decide, by decide, by decide +kernel⟩
  obtain ⟨solution, hsolution⟩ := Option.isSome_iff_exists.1 (hiff.2 ⟨sum, hsum⟩)
  obtain ⟨fold, _, hoperands, hle⟩ := hshortest solution hsolution
  refine ⟨hsize, solution, hsolution, ?_⟩
  rw [← hoperands, Fold.operands, List.length_map]
  exact hle sum hsum

end TargetQuiz.Chain

import TargetQuiz.Proofs.PuzzleDraw
import TargetQuiz.Proofs.RandomRepeat

/-! Generation comes to an end from every live generator: a draw from more than one number gives
some other number than the one to avoid, and every turn of the filling adds a number. -/
namespace TargetQuiz.Generator

/-! Live generators. -/

/-- The generators that a caller can have: made from a seed, by default or for a round, and asked
for anything since. -/
inductive Reachable : Generator → Prop
  | ofSeed (seed : UInt64) : Reachable (ofSeed seed)
  | default : Reachable default
  | ofRound (matchId : MatchId) (round : UInt32) (level : UInt8) :
      Reachable (ofRound matchId round level)
  | after {g : Generator} (r : Request) : Reachable g → Reachable (r.after g)

theorem Request.after_ne_dead (r : Request) {g : Generator} (hg : g ≠ dead) : r.after g ≠ dead := by
  rw [after_eq]
  exact iterate_step_ne_dead hg _

theorem Reachable.ne_dead {g : Generator} (h : Reachable g) : g ≠ dead := by
  induction h with
  | ofSeed seed => exact ofSeed_ne_dead seed
  | default => exact ofSeed_ne_dead 0
  | ofRound matchId round level => exact ofSeed_ne_dead _
  | after r _ ih => exact r.after_ne_dead ih

theorem between_ne_dead (lo hi : Int64) {g : Generator} (hg : g ≠ dead) :
    (g.between lo hi).2 ≠ dead := (Request.between lo hi).after_ne_dead hg

section Returns

variable {α β : Type} {P : Generator → Prop} {x : Option (α × Generator)} {g : Generator}

/-- A step that has a result and leaves the generator with the property `P`. -/
def Returns (P : Generator → Prop) (x : Option (α × Generator)) : Prop :=
  ∃ a next, x = some (a, next) ∧ P next

theorem returns_some {r : α × Generator} (h : P r.2) : Returns P (some r) :=
  ⟨r.1, r.2, rfl, h⟩

theorem Returns.ne_none (h : Returns P x) : x ≠ none := by
  obtain ⟨a, next, rfl, -⟩ := h
  exact Option.some_ne_none _

theorem Returns.bind {f : α × Generator → Option (β × Generator)} (hx : Returns P x)
    (hf : ∀ a next, P next → Returns P (f (a, next))) : Returns P (x >>= f) := by
  obtain ⟨a, next, rfl, hnext⟩ := hx
  exact hf a next hnext

theorem draws_returns {draw : Generator → Option (α × Generator)}
    (hdraw : ∀ g, P g → Returns P (draw g)) (n : Nat) (hg : P g) : Returns P (draws draw n g) := by
  induction n generalizing g with
  | zero => exact returns_some hg
  | succ n ih =>
    exact (hdraw g hg).bind fun a next hnext => (ih hnext).bind fun as last hlast =>
      returns_some hlast

end Returns

end TargetQuiz.Generator

namespace TargetQuiz.Puzzle

open Generator

/-! Draws that avoid a number. -/

/-- One of the two least numbers is not avoided, and some live state gives it. -/
theorem exists_between_ne {max : Int64} (hmax : 1 < max) (avoid : Option Int64) :
    ∃ h, h ≠ dead ∧ some (h.between 1 max).1 ≠ avoid := by
  have hproper : ¬((1 : Int64) = Int64.minValue ∧ max = Int64.maxValue) :=
    fun hall => absurd hall.1 (by decide)
  obtain ⟨v, hlo, hhi, hne⟩ : ∃ v, 1 ≤ v ∧ v ≤ max ∧ some v ≠ avoid := by
    by_cases havoid : some 1 = avoid
    · have htwo : (2 : Int64) ≤ max := by
        have hlt := Int64.lt_iff_toInt_lt.1 hmax
        rw [Int64.le_iff_toInt_le]
        exact Int.add_one_le_of_lt hlt
      refine ⟨2, by decide, htwo, fun hsame => ?_⟩
      exact absurd (havoid.trans hsame.symm) (by decide)
    · exact ⟨1, Int64.le_refl 1, Int64.le_of_lt hmax, havoid⟩
  obtain ⟨h, hlive, hvalue⟩ := exists_between_eq hmax hproper hlo hhi
  exact ⟨h, hlive, hvalue.symm ▸ hne⟩

/-- From a live generator, all draws give the number to avoid up to some draw, which gives another
one and ends the loop. -/
theorem drawAvoiding_first {max : Int64} (hmax : 1 < max) (avoid : Option Int64) {g : Generator}
    (hg : g ≠ dead) :
    ∃ k, (∀ i, i < k → some ((step^[i] g).between 1 max).1 = avoid) ∧
      some ((step^[k] g).between 1 max).1 ≠ avoid ∧
      drawAvoiding max avoid g = some ((step^[k] g).between 1 max) := by
  have haccepted (n : Int64) : (some n != avoid || decide (max ≤ 1)) = true ↔ some n ≠ avoid := by
    simp [Int64.not_le.2 hmax]
  obtain ⟨h, hh, hne⟩ := exists_between_ne hmax avoid
  obtain ⟨k, hk⟩ := exists_firstAccepted_between hmax (by decide)
    (fun n => some n != avoid || decide (max ≤ 1)) hg hh ((haccepted _).2 hne)
  have hdrawn := drawUntil_eq_some_iff.2 ⟨k, hk, rfl⟩
  obtain ⟨hrefused, hlast⟩ := hk
  simp only [afterDraws_between hmax (by decide)] at hrefused hlast hdrawn
  refine ⟨k, fun i hi => ?_, (haccepted _).1 hlast, hdrawn⟩
  by_contra hother
  exact Bool.eq_false_iff.1 (hrefused i hi) ((haccepted _).2 hother)

/-- The generators with `P` keep it, and each of them gives a number other than the one to
avoid, where there is another one. -/
structure Avoids (P : Generator → Prop) (avoid : Option Int64) : Prop where
  step (g : Generator) : P g → P g.step
  returns (max : Int64) (g : Generator) : P g → Returns P (drawAvoiding max avoid g)

theorem avoids_live (avoid : Option Int64) : Avoids (· ≠ dead) avoid where
  step g hg := iterate_step_ne_dead hg 1
  returns max g hg := by
    by_cases hmax : 1 < max
    · obtain ⟨k, -, -, hdrawn⟩ := drawAvoiding_first hmax avoid hg
      rw [hdrawn]
      exact returns_some (between_ne_dead 1 max (iterate_step_ne_dead hg k))
    · -- with nothing to choose, the first draw is accepted
      have haccepted : (some (g.between 1 max).1 != avoid || decide (max ≤ 1)) = true := by
        simp [Int64.not_lt.1 hmax]
      rw [drawAvoiding, drawUntil_of_accepted haccepted]
      exact returns_some (between_ne_dead 1 max hg)

/-- With nothing to avoid every first draw is accepted, also that of the dead generator. -/
theorem avoids_none : Avoids (fun _ => True) none where
  step _ _ := trivial
  returns max g _ := by
    have haccepted : (some (g.between 1 max).1 != none || decide (max ≤ 1)) = true := rfl
    rw [drawAvoiding, drawUntil_of_accepted haccepted]
    exact returns_some trivial

/-! Targets. -/

theorem drawMixed_ne_dead (whole : Int64) {g : Generator} (hg : g ≠ dead) :
    (drawMixed whole g).2 ≠ dead := between_ne_dead 1 _ (between_ne_dead 2 10 hg)

theorem drawDecimal_ne_dead (wholeMax scale : Int64) {g : Generator} (hg : g ≠ dead) :
    (drawDecimal wholeMax scale g).2 ≠ dead :=
  between_ne_dead 1 (scale - 1) (between_ne_dead 0 wholeMax hg)

theorem drawCandidate_ne_dead (tier : Tier) {g : Generator} (hg : g ≠ dead) :
    (drawCandidate tier g).2 ≠ dead := by
  have hcoin : g.coin.2 ≠ dead := Request.coin.after_ne_dead hg
  cases tier with
  | easy => exact between_ne_dead 1 1000 hg
  | medium =>
    simp only [drawCandidate]
    split
    · exact drawDecimal_ne_dead 50 10 hcoin
    · exact drawMixed_ne_dead 0 hcoin
  | hard =>
    simp only [drawCandidate]
    split
    · exact drawDecimal_ne_dead 100 100 hcoin
    · exact drawMixed_ne_dead _ (between_ne_dead 1 10 hcoin)

theorem wholeTarget?_drawCandidate {tier : Tier} (htier : tier.needsFraction = true)
    (g : Generator) : wholeTarget? (drawCandidate tier g).1 = none := by
  have haccepted := (drawCandidate_suits tier g).2.accepted
  rw [htier, Bool.not_true, Bool.false_or, Bool.not_eq_true'] at haccepted
  simp [wholeTarget?, haccepted]

/-! Noise. -/

theorem substitutes_eq_nil_iff (t : Int64) : substitutes t = [] ↔ t = 1 := by
  constructor
  · intro h
    have hnone := List.filter_eq_nil_iff.1 h
    have hhalf : Int64.ofInt (clamp 1 10 (t.toInt / 2)) = t := by
      simpa using hnone _ (List.mem_cons_self ..)
    have hclamp : 1 ≤ clamp 1 10 (t.toInt / 2) ∧ clamp 1 10 (t.toInt / 2) ≤ 10 := by
      unfold clamp
      omega
    have hvalue : (Int64.ofInt (clamp 1 10 (t.toInt / 2))).toInt = clamp 1 10 (t.toInt / 2) :=
      Int64.toInt_ofInt_of_le (by omega) (by omega)
    rw [hhalf] at hvalue
    -- a number from one to ten that is half of itself, up to the bounds
    have hone : t.toInt = 1 := by
      unfold clamp at hvalue
      omega
    exact Int64.toInt_inj.1 hone
  · rintro rfl
    decide

def noiseTurn (max : Int64) (avoid : Option Int64) (room : Nat) (numbers : List Int64)
    (g : Generator) : Option (List Int64 × Generator) :=
  let (n, g) := drawNoise max numbers noiseRedraws g
  if some n = avoid then
    match (substitutes n).take room with
    | [] => do
      let (n, g) ← drawAvoiding (if max < 2 then 2 else max) avoid g
      return ([n], g)
    | a :: rest => some (a :: rest, g)
  else some ([n], g)

theorem addNoise_succ (max : Int64) (avoid : Option Int64) (room : Nat) (numbers : List Int64)
    (g : Generator) :
    addNoise max avoid (room + 1) numbers g =
      (noiseTurn max avoid (room + 1) numbers g).bind fun (added, next) =>
        addNoise max avoid (room + 1 - added.length) (numbers ++ added) next := by
  rw [addNoise, noiseTurn]
  dsimp only
  split
  · cases (substitutes (drawNoise max numbers noiseRedraws g).1).take (room + 1) with
    | nil => cases drawAvoiding (if max < 2 then 2 else max) avoid _ <;> rfl
    | cons a rest => simp
  · rfl

/-! Puzzles. -/

section Avoids

variable {P : Generator → Prop} {avoid : Option Int64} {target : Fraction} {g : Generator}

theorem Avoids.after (h : Avoids P avoid) (r : Request) (hg : P g) : P (r.after g) := by
  rw [Request.after_eq]
  exact Function.Iterate.rec P hg h.step r.words

theorem Avoids.between (h : Avoids P avoid) (lo hi : Int64) (hg : P g) : P (g.between lo hi).2 :=
  h.after (.between lo hi) hg

theorem Avoids.partners (h : Avoids P avoid) (last : Nat) (hg : P g) :
    P (Generator.partners last g).2 := by
  induction last generalizing g with
  | zero => exact hg
  | succ last ih => exact ih (h.after (.below (UInt64.ofNat (last + 2))) hg)

theorem searchSeeds_returns (h : Avoids P (wholeTarget? target)) (seedMax : Int64)
    (count attempts : Nat) (hg : P g) :
    Returns P (searchSeeds target seedMax count attempts g) := by
  induction attempts generalizing g with
  | zero => exact returns_some hg
  | succ attempts ih =>
    refine (draws_returns (h.returns seedMax) count hg).bind fun seeds next hnext => ?_
    dsimp only
    split
    · exact returns_some hnext
    · exact ih hnext

theorem decomposed_returns (h : Avoids P (wholeTarget? target)) (cap : Int64) (hg : P g) :
    Returns P (decomposed target cap g) :=
  (h.returns fillerMax g hg).bind fun _ _ hnext => returns_some hnext

theorem drawBase_returns (h : Avoids P (wholeTarget? target)) (tier : Tier) (hg : P g) :
    Returns P (drawBase tier target g) := by
  have hcount := h.between tier.params.seedCount.lo tier.params.seedCount.hi hg
  refine (searchSeeds_returns h tier.params.seedMax _ (seedRetries + 1) hcount).bind
    fun base? next hnext => ?_
  cases base? with
  | some base => exact returns_some hnext
  | none => exact decomposed_returns h tier.params.denominatorCap hnext

theorem Avoids.drawNoise (h : Avoids P avoid) (max : Int64) (numbers : List Int64) (redraws : Nat)
    (hg : P g) : P (drawNoise max numbers redraws g).2 := by
  induction redraws generalizing g with
  | zero => exact h.between 1 max hg
  | succ redraws ih =>
    rw [Puzzle.drawNoise]
    dsimp only
    split
    · exact ih (h.between 1 max hg)
    · exact h.between 1 max hg

/-- A turn adds something, and no more than there is room for. -/
theorem noiseTurn_returns (h : Avoids P avoid) (max : Int64) (room : Nat) (numbers : List Int64)
    (hg : P g) :
    ∃ added next, noiseTurn max avoid (room + 1) numbers g = some (added, next) ∧
      1 ≤ added.length ∧ added.length ≤ room + 1 ∧ P next := by
  have hdrawn := h.drawNoise max numbers noiseRedraws hg
  rw [noiseTurn]
  dsimp only
  split
  · cases htaken : (substitutes (drawNoise max numbers noiseRedraws g).1).take (room + 1) with
    | nil =>
      obtain ⟨n, next, hn, hnext⟩ := h.returns (if max < 2 then 2 else max) _ hdrawn
      exact ⟨[n], next, by rw [hn]; rfl, Nat.le_refl 1, Nat.succ_pos room, hnext⟩
    | cons a rest =>
      have hlength := congrArg List.length htaken
      rw [List.length_take, List.length_cons] at hlength
      exact ⟨a :: rest, _, rfl, Nat.succ_pos _, by rw [List.length_cons]; omega, hdrawn⟩
  · exact ⟨_, _, rfl, Nat.le_refl 1, Nat.succ_pos room, hdrawn⟩

theorem addNoise_returns (h : Avoids P avoid) (max : Int64) (room : Nat) (numbers : List Int64)
    (hg : P g) : Returns P (addNoise max avoid room numbers g) := by
  induction room using Nat.strong_induction_on generalizing numbers g with
  | _ room ih =>
    cases room with
    | zero =>
      rw [addNoise]
      exact returns_some hg
    | succ room =>
      obtain ⟨added, next, hturn, hadded, -, hnext⟩ := noiseTurn_returns h max room numbers hg
      rw [addNoise_succ, hturn]
      exact ih (room + 1 - added.length) (by omega) (numbers ++ added) hnext

theorem generate_returns_of_avoids {tier : Tier}
    (h : Avoids P (wholeTarget? (drawCandidate tier g).1)) (hg : P (drawCandidate tier g).2) :
    Returns P (generate tier g) := by
  rw [generate, sampleTarget_eq_drawCandidate]
  refine (drawBase_returns h tier hg).bind fun base g₁ h₁ => ?_
  have hsize := h.between tier.params.setSize.lo tier.params.setSize.hi h₁
  refine (addNoise_returns h tier.params.noiseMax _ base.numbers hsize).bind
    fun filled g₂ h₂ => ?_
  exact returns_some (h.partners (filled.length - 1) h₂)

end Avoids

theorem returns_generate (tier : Tier) {g : Generator} (hg : g ≠ dead) :
    Returns (· ≠ dead) (generate tier g) :=
  generate_returns_of_avoids (avoids_live _) (drawCandidate_ne_dead tier hg)

theorem generateMany_returns (tier : Tier) (count : Nat) {g : Generator} (hg : g ≠ dead) :
    Returns (· ≠ dead) (generateMany tier count g) :=
  draws_returns (fun _ => returns_generate tier) count hg

theorem isSome_ofRound (matchId : MatchId) (round : UInt32) (tier : Tier) :
    (ofRound matchId round tier).isSome := by
  obtain ⟨p, next, hp, -⟩ :=
    returns_generate tier (Reachable.ofRound matchId round tier.level).ne_dead
  rw [ofRound, hp]
  rfl

/-- The dead generator draws the target one, and then nothing but ones for its seeds. -/
theorem generate_easy_dead : generate .easy dead = none := by
  have hone : between 1 10 dead = (1, dead) := by decide
  have hstuck : drawAvoiding 10 (some 1) dead = none := by
    rw [drawAvoiding, drawUntil_eq_none_iff]
    intro k
    have hdead : afterDraws (between 1 10) k dead = dead :=
      Function.iterate_fixed (congrArg Prod.snd hone) k
    rw [hdead, hone]
    decide
  have hwhole : wholeTarget? (Fraction.whole 1) = some 1 := by decide
  have hseeds : searchSeeds (Fraction.whole 1) 10 2 (seedRetries + 1) dead = none := by
    simp only [searchSeeds, draws, hwhole, hstuck, Option.bind_eq_bind, Option.bind_none]
  have hcount : between 2 3 dead = (2, dead) := by decide
  have htwo : (2 : Int64).toInt.toNat = 2 := by decide
  have hbase : drawBase .easy (Fraction.whole 1) dead = none := by
    simp only [drawBase, Tier.params, hcount, htwo, hseeds, Option.bind_eq_bind, Option.bind_none]
  have htarget : drawCandidate .easy dead = (Fraction.whole 1, dead) := by decide
  refine Option.eq_none_iff_forall_not_mem.2 ?_
  rintro ⟨p, next⟩ hmade
  obtain ⟨base, _, _, hsteps⟩ := generate_steps hmade
  obtain ⟨before, after, hsampled, hdrawn⟩ := hsteps.drawn
  rw [sampleTarget_eq_drawCandidate, htarget, Option.some.injEq, Prod.mk.injEq] at hsampled
  rw [← hsampled.1, ← hsampled.2, hbase] at hdrawn
  cases hdrawn

/-- No puzzle is made only where the target can not be avoided. -/
theorem generate_eq_none_iff {tier : Tier} {g : Generator} :
    generate tier g = none ↔ tier = .easy ∧ g = dead := by
  constructor
  · intro hnone
    have hdead : g = dead := by
      by_contra hlive
      exact (returns_generate tier hlive).ne_none hnone
    refine ⟨?_, hdead⟩
    have hwhole (htier : tier.needsFraction = true) : False := by
      have havoids : Avoids (fun _ => True) (wholeTarget? (drawCandidate tier g).1) := by
        rw [wholeTarget?_drawCandidate htier g]
        exact avoids_none
      exact (generate_returns_of_avoids havoids trivial).ne_none hnone
    cases tier with
    | easy => rfl
    | medium => exact (hwhole rfl).elim
    | hard => exact (hwhole rfl).elim
  · rintro ⟨rfl, rfl⟩
    exact generate_easy_dead

/-- Every generator that a caller can have is alive, and a live generator makes a puzzle of every
tier and stays alive. On the way, seeds, fillers and noise are all drawn from more than one number,
so a draw that avoids a number meets another one, with only the number to avoid before it. And a
turn of the filling adds at least one number; the target one is the only one for which nothing
stands in, so that the turn has to draw again. -/
theorem generate_returns :
    (∀ g, Reachable g → g ≠ dead) ∧
      (∀ (tier : Tier) (g : Generator), g ≠ dead →
        ∃ p next, generate tier g = some (p, next) ∧ next ≠ dead) ∧
      ((∀ tier : Tier, 1 < tier.params.seedMax) ∧ 1 < fillerMax ∧
        ∀ max : Int64, 1 < if max < 2 then 2 else max) ∧
      (∀ (max : Int64) (avoid : Option Int64) (g : Generator), 1 < max → g ≠ dead →
        ∃ k, (∀ i, i < k → some ((step^[i] g).between 1 max).1 = avoid) ∧
          some ((step^[k] g).between 1 max).1 ≠ avoid ∧
          drawAvoiding max avoid g = some ((step^[k] g).between 1 max)) ∧
      (∀ (max : Int64) (avoid : Option Int64) (room : Nat) (numbers : List Int64) (g : Generator),
        g ≠ dead →
        ∃ added next, noiseTurn max avoid (room + 1) numbers g = some (added, next) ∧
          1 ≤ added.length ∧ added.length ≤ room + 1 ∧ next ≠ dead ∧
          addNoise max avoid (room + 1) numbers g =
            addNoise max avoid (room + 1 - added.length) (numbers ++ added) next) ∧
      ∀ t : Int64, substitutes t = [] ↔ t = 1 := by
  refine ⟨fun g h => h.ne_dead, fun tier g hg => returns_generate tier hg, ⟨fun tier => ?_,
    by decide, fun max => ?_⟩, fun max avoid g hmax hg => drawAvoiding_first hmax avoid hg,
    fun max avoid room numbers g hg => ?_, substitutes_eq_nil_iff⟩
  · cases tier <;> decide
  · split
    · decide
    · rename_i hmax
      exact Int64.lt_of_lt_of_le (by decide) (Int64.not_lt.1 hmax)
  · obtain ⟨added, next, hturn, hadded, hroom, hnext⟩ :=
      noiseTurn_returns (avoids_live avoid) max room numbers hg
    refine ⟨added, next, hturn, hadded, hroom, hnext, ?_⟩
    rw [addNoise_succ, hturn]
    rfl

/-- A hard puzzle, a filler that avoids two although two is drawn first, and a turn of the filling,
all from the words zero and one. -/
theorem generate_returns_zero_one :
    Reachable default ∧ (default : Generator) ≠ dead ∧ (⟨0, 1⟩ : Generator) ≠ dead ∧
      1 < fillerMax ∧ ((⟨0, 1⟩ : Generator).between 1 fillerMax).1 = 2 ∧
      (∃ p next, generate .hard ⟨0, 1⟩ = some (p, next) ∧ next ≠ dead) ∧
      (∃ k, (∀ i, i < k → some ((step^[i] ⟨0, 1⟩).between 1 fillerMax).1 = some 2) ∧
        some ((step^[k] ⟨0, 1⟩).between 1 fillerMax).1 ≠ some 2 ∧
        drawAvoiding fillerMax (some 2) ⟨0, 1⟩ = some ((step^[k] ⟨0, 1⟩).between 1 fillerMax)) ∧
      ∃ added next, noiseTurn 9 (some 1) (1 + 1) [] ⟨0, 1⟩ = some (added, next) ∧
        1 ≤ added.length ∧ added.length ≤ 1 + 1 ∧ next ≠ dead ∧
        addNoise 9 (some 1) (1 + 1) [] ⟨0, 1⟩ =
          addNoise 9 (some 1) (1 + 1 - added.length) ([] ++ added) next := by
  have hlive : (⟨0, 1⟩ : Generator) ≠ dead := by decide
  have hmax : 1 < fillerMax := by decide
  obtain ⟨hreachable, hreturns, -, hdraws, hturns, -⟩ := generate_returns
  exact ⟨.default, hreachable default .default, hlive, hmax, by decide,
    hreturns .hard ⟨0, 1⟩ hlive, hdraws fillerMax (some 2) ⟨0, 1⟩ hmax hlive,
    hturns 9 (some 1) 1 [] ⟨0, 1⟩ hlive⟩

end TargetQuiz.Puzzle

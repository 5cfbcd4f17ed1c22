namespace TargetQuiz

inductive Tier where
  | easy
  | medium
  | hard
  deriving DecidableEq, Repr, Inhabited

inductive DisplayRule where
  | wholeNumber
  | tenthsOrFraction
  | hundredthsOrMixed
  deriving DecidableEq, Repr

structure Span where
  lo : Int64
  hi : Int64
  deriving DecidableEq, Repr

/-- What puzzles of a tier are made with. Seeds and noise are drawn from one to their maximum, and a
decomposition splits off no denominator above the cap. -/
structure TierParams where
  setSize : Span
  seedCount : Span
  seedMax : Int64
  noiseMax : Int64
  denominatorCap : Int64
  deriving DecidableEq, Repr

structure UnknownLevel where
  level : UInt8
  deriving DecidableEq, Repr

def UnknownLevel.message (e : UnknownLevel) : String :=
  s!"unknown difficulty level {e.level.toNat}"

namespace Tier

def level : Tier → UInt8
  | easy => 1
  | medium => 2
  | hard => 3

/-- The tier for any level; levels outside one to three count as the nearest of these. -/
def ofLevel (level : Int64) : Tier :=
  if level ≤ 1 then easy else if level = 2 then medium else hard

def ofExactLevel (level : UInt8) : Except UnknownLevel Tier :=
  if level = 1 then .ok easy
  else if level = 2 then .ok medium
  else if level = 3 then .ok hard
  else .error ⟨level⟩

def params : Tier → TierParams
  | easy => ⟨⟨5, 7⟩, ⟨2, 3⟩, 10, 9, 1⟩
  | medium => ⟨⟨5, 8⟩, ⟨2, 3⟩, 15, 19, 10⟩
  | hard => ⟨⟨5, 10⟩, ⟨2, 4⟩, 20, 29, 100⟩

def needsFraction : Tier → Bool
  | easy => false
  | medium | hard => true

def displayRule : Tier → DisplayRule
  | easy => .wholeNumber
  | medium => .tenthsOrFraction
  | hard => .hundredthsOrMixed

theorem ofExactLevel_level (t : Tier) : ofExactLevel t.level = .ok t := by cases t <;> rfl

end Tier

/-- The rule for any level; every level but one and three has the middle rule. -/
def DisplayRule.ofLevel (level : Int64) : DisplayRule :=
  if level = 1 then .wholeNumber
  else if level = 3 then .hundredthsOrMixed
  else .tenthsOrFraction

namespace Schedule

def defaultEasy : UInt32 := 50

def defaultMedium : UInt32 := 30

/-- A percentage of a total, a half rounded up; more than all counts as all. -/
def share (total percent : Nat) : Nat := (total * min percent 100 + 50) / 100

/-- The tiers of the rounds of a match, the easy ones first. The hard rounds are those that remain,
and the medium ones give way when both shares together are rounded up too far. -/
def tiers (total easyPercent mediumPercent : Nat) : List Tier :=
  let easy := min (share total easyPercent) total
  let medium := min (share total mediumPercent) (total - easy)
  List.replicate easy .easy ++ List.replicate medium .medium ++
    List.replicate (total - easy - medium) .hard

end Schedule
end TargetQuiz

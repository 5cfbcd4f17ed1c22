import TargetQuiz.Text.Numeral
import TargetQuiz.Text.Quoted
import TargetQuiz.Tier
import TargetQuiz.Word

/-! Settings from named variables: unset ones have defaults, those that are set must be numbers of
their range. -/
namespace TargetQuiz

structure Settings where
  seed : Option UInt64
  questions : UInt64
  tier : Tier
  easyPercent : UInt32
  mediumPercent : UInt32
  deriving DecidableEq, Repr

inductive SettingsError where
  | invalidValue (name value : String)
  | sharesExceedTotal (easy medium : UInt32)
  deriving DecidableEq, Repr

def SettingsError.message : SettingsError → String
  | .invalidValue name value => "invalid value for " ++ name ++ ": " ++ Text.quoted value
  | .sharesExceedTotal easy medium =>
    s!"easy ({easy.toNat}%) and medium ({medium.toNat}%) shares exceed 100%"

namespace Settings

def seedName : String := "MATHSPEED_SEED"

def questionsName : String := "MATHSPEED_QUESTIONS"

def tierName : String := "MATHSPEED_DIFFICULTY"

def easyName : String := "MATHSPEED_EASY_PCT"

def mediumName : String := "MATHSPEED_MEDIUM_PCT"

def defaultQuestions : UInt64 := 10

def int64? (cs : List Char) : Option Int64 := (Numeral.int? cs).bind Word.int64?

def uint64? (cs : List Char) : Option UInt64 := (Numeral.nat? cs).bind Word.uint64?

def uint32? (cs : List Char) : Option UInt32 := (Numeral.nat? cs).bind Word.uint32?

/-- The value of a variable that may be unset, read without the blanks around it. -/
def setting? {α : Type} (lookup : String → Option String) (read? : List Char → Option α)
    (name : String) : Except SettingsError (Option α) :=
  match lookup name with
  | none => .ok none
  | some raw =>
    match read? (Text.trim raw.toList) with
    | some a => .ok (some a)
    | none => .error (.invalidValue name raw)

/-- Refuse shares that exceed the whole; their sum is that of the numbers and does not wrap. -/
def validate (s : Settings) : Except SettingsError Settings :=
  if 100 < s.easyPercent.toNat + s.mediumPercent.toNat then
    .error (.sharesExceedTotal s.easyPercent s.mediumPercent)
  else .ok s

/-- The settings that the variables give. Values are read in a fixed order, so the first faulty
one is reported, and the shares are compared when all can be read. -/
def ofLookup (lookup : String → Option String) : Except SettingsError Settings := do
  let seed ← setting? lookup uint64? seedName
  let questions ← setting? lookup uint64? questionsName
  let level ← setting? lookup int64? tierName
  let easy ← setting? lookup uint32? easyName
  let medium ← setting? lookup uint32? mediumName
  validate
    { seed
      questions := max (questions.getD defaultQuestions) 1
      tier := (level.map Tier.ofLevel).getD .easy
      easyPercent := easy.getD Schedule.defaultEasy
      mediumPercent := medium.getD Schedule.defaultMedium }

def schedule (s : Settings) : List Tier :=
  Schedule.tiers s.questions.toNat s.easyPercent.toNat s.mediumPercent.toNat

end Settings
end TargetQuiz

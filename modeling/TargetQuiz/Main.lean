import TargetQuiz.Session

/-! The command: it reads the settings from the environment and prints the rounds of one match. What
the settings leave open is drawn from the random source of the system. -/
namespace TargetQuiz.Report

def numbersText (numbers : List Int64) : String :=
  "[" ++ ", ".intercalate (numbers.map fun n => toString n.toInt) ++ "]"

def matchIdText (matchId : MatchId) : String :=
  String.ofList (matchId.toList.flatMap fun b =>
    [Json.hexDigit (b.toNat / 16), Json.hexDigit b.toNat])

def reasonText (v : Verdict) : String := v.reason.getD "none"

/-- An answer that uses the first number on offer three times. -/
def reusingAnswer? (q : Question) : Option String :=
  q.numbers.head?.map fun n => "+".intercalate (List.replicate 3 (toString n.toInt))

def checkedLine (q : Question) (answer : String) : String :=
  let v := q.check answer
  s!"  {answer} -> accepted={v.accepted} reason={reasonText v}"

def roundLines (round : Nat) (p : Puzzle) : Except TransportError (List String) := do
  let q ← Question.ofTransport p.transport
  let origin := if p.usedFallback then " (fallback)" else ""
  return [s!"Round {round} [tier {p.tier.level.toNat}]: {q.display} using " ++
      numbersText q.numbers ++ origin,
    "  client payload: " ++ Wire.write q.clientView,
    "  canonical answer: " ++ q.canonicalAnswer] ++
    (p.solution :: (reusingAnswer? q).toList).map (checkedLine q)

def settingsLine (s : Settings) : String :=
  s!"Questions: {s.questions.toNat}, schedule {s.easyPercent.toNat}% easy / " ++
    s!"{s.mediumPercent.toNat}% medium"

def rounds (matchId : MatchId) (s : Settings) : List (Nat × Option Puzzle) :=
  s.schedule.zipIdx.map fun (tier, round) =>
    (round + 1, Puzzle.ofRound matchId (UInt32.ofNat round) tier)

def batchSize : Nat := 3

def batch (seed : UInt64) (s : Settings) : List String :=
  let level := s.tier.level.toNat.toInt64
  (((Provider.ofSeed seed).questions batchSize level).map (·.1)).getD []

end TargetQuiz.Report

namespace TargetQuiz

def settingNames : List String :=
  [Settings.seedName, Settings.questionsName, Settings.tierName, Settings.easyName,
    Settings.mediumName]

def printRounds (matchId : MatchId) (s : Settings) : IO Unit :=
  for (round, puzzle?) in Report.rounds matchId s do
    match puzzle?.map (Report.roundLines round) with
    | some (.ok lines) => lines.forM fun line => IO.println line
    | some (.error e) => IO.eprintln e.message
    | none => IO.eprintln "no puzzle"

def printBatch (seed : UInt64) (s : Settings) : IO Unit := do
  IO.println s!"Base seed: {seed.toNat}"
  (Report.batch seed s).forM fun line => IO.println line

def randomBytes (n : Nat) : IO (List UInt8) :=
  return (← IO.getRandomBytes (USize.ofNat n)).toList

def runReport (s : Settings) : IO Unit := do
  let bytes ← randomBytes 16
  let matchId : MatchId := Vector.ofFn fun i => bytes.getD i.val 0
  IO.println (Report.settingsLine s)
  IO.println ("Match ID: " ++ Report.matchIdText matchId)
  printRounds matchId s
  let drawn := UInt64.ofNat (ofLittleEndian (← randomBytes 8))
  printBatch (s.seed.getD drawn) s

end TargetQuiz

def main : IO UInt32 := do
  let values ← TargetQuiz.settingNames.mapM fun name => return (name, ← IO.getEnv name)
  match TargetQuiz.Settings.ofLookup fun name => (values.lookup name).join with
  | .ok settings =>
    TargetQuiz.runReport settings
    return 0
  | .error e =>
    IO.eprintln ("invalid configuration: " ++ e.message)
    return 1

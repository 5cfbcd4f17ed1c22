import TargetQuiz.Question.Basic
import TargetQuiz.Question.Payload
import TargetQuiz.Settings

/-! Providers answer calls with batches of questions. The generator of a batch depends on the base
seed and the number of the call only. A session is a provider with the questions it has asked for.
-/
namespace TargetQuiz

structure Provider where
  baseSeed : UInt64
  calls : UInt64
  deriving DecidableEq, Repr

namespace Provider

def ofSeed (seed : UInt64) : Provider := ⟨seed, 0⟩

/-- Keeps the calls of a provider apart. It is odd, so calls times it are all different. -/
def callFactor : UInt64 := 0xD1B54A32D192ED03

def generatorOfCall (baseSeed call : UInt64) : Generator :=
  .ofSeed (SplitMix.next (baseSeed ^^^ call * callFactor)).1

def puzzles (count : Nat) (tier : Tier) (p : Provider) : Option (List Puzzle × Provider) := do
  let (made, _) ← Puzzle.generateMany tier count (generatorOfCall p.baseSeed p.calls)
  return (made, { p with calls := p.calls + 1 })

def questions (count : Nat) (level : Int64) (p : Provider) : Option (List String × Provider) := do
  let (made, p) ← p.puzzles count (Tier.ofLevel level)
  return (made.map Puzzle.transport, p)

end Provider

structure Session where
  settings : Settings
  provider : Provider
  deck : List String
  made : List Puzzle
  current : Option Question

namespace Session

def start? (settings : Settings) : Option Session :=
  settings.seed.map fun seed => ⟨settings, .ofSeed seed, [], [], none⟩

def ask (s : Session) (count : Nat) (level : Int64) : Option (List String × Session) := do
  let (questions, provider) ← s.provider.questions count level
  return (questions, { s with provider, deck := s.deck ++ questions })

def askDefault (s : Session) (count : Nat) : Option (List String × Session) :=
  s.ask count s.settings.tier.level.toNat.toInt64

def make (s : Session) (count : Nat) (level : Int64) : Option (List Puzzle × Session) := do
  let (made, provider) ← s.provider.puzzles count (Tier.ofLevel level)
  return (made, { s with provider, made })

/-- Open the question of a transport form. If it cannot be read, the open question stays. -/
def openRaw (s : Session) (raw : String) : Except TransportError Question × Session :=
  match Question.ofTransport raw with
  | .ok q => (.ok q, { s with current := some q })
  | .error e => (.error e, s)

def openDeck (s : Session) (index : Nat) : Option (Except TransportError Question × Session) :=
  (s.deck[index]?).map s.openRaw

/-- Open a puzzle made last by way of its transport form, and check its own solution. -/
def openMade (s : Session) (index : Nat) : Option (Except TransportError Verdict × Session) :=
  (s.made[index]?).map fun p =>
    let (q, s) := s.openRaw p.transport
    (q.map (·.check p.solution), s)

def check (s : Session) (answer : String) : Option Verdict := s.current.map (·.check answer)

def solve (s : Session) (limit : Nat) : Option (Option (Solution × Verdict)) :=
  s.current.map fun q =>
    (searchWithin q.numbers q.target limit).map fun solution =>
      (solution, q.check solution.expression)

end Session
end TargetQuiz

import TargetQuiz.Proofs.Binary64Order
import TargetQuiz.Proofs.PuzzleOffer
import TargetQuiz.Proofs.RandomSeed
import TargetQuiz.Proofs.TransportRoundTrip
import TargetQuiz.Session

/-! Clients call a provider at the same time. A call takes its number in one step and then makes its
puzzles one by one from a generator of its own; between two steps any other call may go on. -/
namespace TargetQuiz

theorem Puzzle.ofTransport_transport {tier : Tier} {g g' : Generator} {p : Puzzle}
    (h : generate tier g = some (p, g')) :
    Question.ofTransport p.transport = .ok ⟨p.target, p.numbers, p.display, p.canonicalAnswer⟩ := by
  obtain ⟨_, _, _, hsteps⟩ := generate_steps h
  have hfinite : (QuestionPayload.ofPuzzle p).approx.isFinite = true := by
    change p.approx.isFinite = true
    rw [hsteps.approx]
    exact p.target.isFinite_approximate
  have htarget : (QuestionPayload.ofPuzzle p).target.toFraction = .ok p.target :=
    TargetPayload.toFraction_ofFraction p.target
  rw [Puzzle.transport, Question.ofTransport_toTransport hfinite, htarget]
  rfl

namespace Provider

theorem generatorOfCall_injective (seed : UInt64) : Function.Injective (generatorOfCall seed) := by
  intro m n h
  have hspread := SplitMix.next_fst_injective (Generator.ofSeed_injective h)
  have hfactor : Function.Injective fun call : UInt64 => call * callFactor :=
    SplitMix.mul_injective 0x6106CCFA448E5AB (by decide)
  exact hfactor ((UInt64.xor_right_inj _).1 hspread)

theorem puzzles_eq_some_iff {count : Nat} {tier : Tier} {p next : Provider} {made : List Puzzle} :
    p.puzzles count tier = some (made, next) ↔
      (∃ g, Puzzle.generateMany tier count (generatorOfCall p.baseSeed p.calls) = some (made, g)) ∧
        { p with calls := p.calls + 1 } = next := by
  simp [puzzles, Option.bind_eq_some_iff]

end Provider

/-- A call of a client, with the number that it took. -/
structure Call where
  client : Nat
  number : UInt64
  count : Nat
  level : Int64
  deriving DecidableEq

namespace Call

def tier (c : Call) : Tier := .ofLevel c.level

def generator (seed : UInt64) (c : Call) : Generator := Provider.generatorOfCall seed c.number

end Call

/-- A call that is being answered: the puzzles that are made, and its generator after them. -/
structure Progress where
  call : Call
  made : List Puzzle
  generator : Generator

/-- A provider with the calls of its clients: those that are being answered, and those that have
their batch. -/
structure Shared where
  provider : Provider
  running : List Progress
  answered : List (Call × List String)

namespace Shared

variable {seed : UInt64} {s t : Shared}

def calls (s : Shared) : List Call := s.running.map (·.call) ++ s.answered.map (·.1)

inductive Step : Shared → Shared → Prop
  | take (client count : Nat) (level : Int64) (p : Provider) (running : List Progress)
      (answered : List (Call × List String)) :
      Step ⟨p, running, answered⟩
        ⟨{ p with calls := p.calls + 1 },
          ⟨⟨client, p.calls, count, level⟩, [],
            Provider.generatorOfCall p.baseSeed p.calls⟩ :: running, answered⟩
  | make {p : Provider} (before : List Progress) {after : List Progress}
      {answered : List (Call × List String)} {c : Progress} {puzzle : Puzzle} {g : Generator}
      (hcount : c.made.length < c.call.count)
      (hmade : Puzzle.generate c.call.tier c.generator = some (puzzle, g)) :
      Step ⟨p, before ++ c :: after, answered⟩
        ⟨p, before ++ ⟨c.call, c.made ++ [puzzle], g⟩ :: after, answered⟩
  | answer {p : Provider} (before : List Progress) {after : List Progress}
      {answered : List (Call × List String)} {c : Progress}
      (hcount : c.made.length = c.call.count) :
      Step ⟨p, before ++ c :: after, answered⟩
        ⟨p, before ++ after, (c.call, c.made.map Puzzle.transport) :: answered⟩

inductive Reachable (seed : UInt64) : Shared → Prop
  | start : Reachable seed ⟨.ofSeed seed, [], []⟩
  | step {s t : Shared} (h : Reachable seed s) (hstep : Step s t) : Reachable seed t

theorem Reachable.trans {s t : Shared} (h : Reachable seed s)
    (hsteps : Relation.ReflTransGen Step s t) : Reachable seed t := by
  induction hsteps with
  | refl => exact h
  | tail _ hstep ih => exact ih.step hstep

theorem steps_make {p : Provider} {running : List Progress} {answered : List (Call × List String)}
    {call : Call} {n : Nat} {made rest : List Puzzle} {g g' : Generator}
    (hcount : made.length + n = call.count)
    (hmade : Puzzle.generateMany call.tier n g = some (rest, g')) :
    Relation.ReflTransGen Step ⟨p, ⟨call, made, g⟩ :: running, answered⟩
      ⟨p, ⟨call, made ++ rest, g'⟩ :: running, answered⟩ := by
  induction n generalizing made rest g with
  | zero =>
    cases hmade
    rw [List.append_nil]
  | succ n ih =>
    simp only [Puzzle.generateMany, Generator.draws, Option.bind_eq_bind,
      Option.bind_eq_some_iff] at hmade
    obtain ⟨⟨puzzle, next⟩, hpuzzle, ⟨others, last⟩, hothers, heq⟩ := hmade
    cases heq
    have hmake : Step ⟨p, [] ++ ⟨call, made, g⟩ :: running, answered⟩
        ⟨p, [] ++ ⟨call, made ++ [puzzle], next⟩ :: running, answered⟩ := by
      refine .make [] ?_ hpuzzle
      change made.length < call.count
      omega
    have hlength : (made ++ [puzzle]).length + n = call.count := by
      rw [List.length_append, List.length_singleton]
      omega
    have hrest := ih hlength hothers
    rw [List.append_assoc, List.singleton_append] at hrest
    exact .head hmake hrest

/-- When no other call comes between, the steps of a call are the answer of the provider. -/
theorem Reachable.questions {p next : Provider} {running : List Progress}
    {answered : List (Call × List String)} {count : Nat} {level : Int64} {strings : List String}
    (h : Reachable seed ⟨p, running, answered⟩) (client : Nat)
    (hquestions : p.questions count level = some (strings, next)) :
    Reachable seed ⟨next, running, (⟨client, p.calls, count, level⟩, strings) :: answered⟩ := by
  simp only [Provider.questions, Option.bind_eq_bind, Option.bind_eq_some_iff] at hquestions
  obtain ⟨⟨made, q⟩, hpuzzles, heq⟩ := hquestions
  cases heq
  obtain ⟨⟨g, hmade⟩, rfl⟩ := Provider.puzzles_eq_some_iff.1 hpuzzles
  have hlength : made.length = count := (Generator.draws_eq_some (P := fun _ => True)
    (fun _ => trivial) hmade).1
  have htaken := h.step (.take client count level p running answered)
  have hmake := htaken.trans (steps_make (Nat.zero_add count) hmade)
  exact hmake.step (.answer [] hlength)

def Progress.Sound (seed : UInt64) (c : Progress) : Prop :=
  Puzzle.generateMany c.call.tier c.made.length (c.call.generator seed) =
    some (c.made, c.generator)

def Answers (seed : UInt64) (call : Call) (strings : List String) : Prop :=
  ∃ puzzles g, Puzzle.generateMany call.tier call.count (call.generator seed) = some (puzzles, g) ∧
    strings = puzzles.map Puzzle.transport

/-- Every call has the puzzles of its own generator, whatever the other calls did. -/
structure Sound (seed : UInt64) (s : Shared) : Prop where
  baseSeed : s.provider.baseSeed = seed
  running : ∀ c ∈ s.running, Progress.Sound seed c
  answered : ∀ a ∈ s.answered, Answers seed a.1 a.2

theorem Progress.Sound.make {c : Progress} {puzzle : Puzzle} {g : Generator}
    (h : Progress.Sound seed c)
    (hmade : Puzzle.generate c.call.tier c.generator = some (puzzle, g)) :
    Progress.Sound seed ⟨c.call, c.made ++ [puzzle], g⟩ := by
  have hlast : Puzzle.generateMany c.call.tier 1 c.generator = some ([puzzle], g) := by
    simp [Puzzle.generateMany, Generator.draws, hmade]
  have hall := Generator.draws_append h hlast
  rwa [Progress.Sound, List.length_append, List.length_singleton]

theorem Step.sound (hstep : Step s t) (h : Sound seed s) : Sound seed t := by
  obtain ⟨hseed, hrunning, hanswered⟩ := h
  cases hstep with
  | take client count level p running answered =>
    subst hseed
    exact ⟨rfl, List.forall_mem_cons.2 ⟨rfl, hrunning⟩, hanswered⟩
  | make before hcount hmade =>
    simp only [List.forall_mem_append, List.forall_mem_cons] at hrunning
    obtain ⟨hbefore, hc, hafter⟩ := hrunning
    refine ⟨hseed, ?_, hanswered⟩
    simp only [List.forall_mem_append, List.forall_mem_cons]
    exact ⟨hbefore, hc.make hmade, hafter⟩
  | @answer p before after answered c hcount =>
    simp only [List.forall_mem_append, List.forall_mem_cons] at hrunning
    obtain ⟨hbefore, hc, hafter⟩ := hrunning
    refine ⟨hseed, List.forall_mem_append.2 ⟨hbefore, hafter⟩,
      List.forall_mem_cons.2 ⟨⟨c.made, c.generator, ?_, rfl⟩, hanswered⟩⟩
    rw [← hcount]
    exact hc

theorem Reachable.sound (h : Reachable seed s) : Sound seed s := by
  induction h with
  | start => exact ⟨rfl, by simp, by simp⟩
  | step _ hstep ih => exact hstep.sound ih

/-- A step gives the number that is next to a new call, or no number to any. -/
theorem Step.calls_eq (hstep : Step s t) :
    (∃ call : Call, call.number = s.provider.calls ∧ t.calls = call :: s.calls ∧
      t.provider.calls = s.provider.calls + 1) ∨
    (t.calls.Perm s.calls ∧ t.provider.calls = s.provider.calls) := by
  cases hstep with
  | take client count level p running answered =>
    exact .inl ⟨⟨client, p.calls, count, level⟩, rfl, rfl, rfl⟩
  | make before hcount hmade =>
    right
    simp [calls]
  | answer before hcount =>
    right
    simp only [calls, List.map_append, List.map_cons, List.append_assoc, List.cons_append,
      and_true]
    exact List.perm_middle.append_left _

/-- The numbers that are given are the first ones, each once, as long as there are any. -/
structure Numbered (s : Shared) : Prop where
  next : s.provider.calls = .ofNat s.calls.length
  numbers : (s.calls.map (·.number)).Perm ((List.range s.calls.length).map .ofNat)

theorem Step.numbered (hstep : Step s t) (h : Numbered s) : Numbered t := by
  obtain ⟨hnext, hnumbers⟩ := h
  rcases hstep.calls_eq with ⟨call, hnumber, hcalls, hcounter⟩ | ⟨hcalls, hcounter⟩
  · constructor
    · rw [hcounter, hnext, hcalls, List.length_cons]
      simp
    · rw [hcalls, List.map_cons, List.length_cons, List.range_succ, List.map_append, hnumber, hnext]
      exact (hnumbers.cons _).trans (List.perm_append_singleton _ _).symm
  · constructor
    · rw [hcounter, hnext, hcalls.length_eq]
    · rw [hcalls.length_eq]
      exact (hcalls.map _).trans hnumbers

theorem Reachable.numbered (h : Reachable seed s) : Numbered s := by
  induction h with
  | start => exact ⟨rfl, .refl _⟩
  | step _ hstep ih => exact hstep.numbered ih

/-- As long as the numbers do not begin again, no two calls have the same generator. -/
theorem Reachable.nodup_generators (h : Reachable seed s) (hcalls : s.calls.length ≤ UInt64.size) :
    (s.calls.map (Call.generator seed)).Nodup := by
  have hnumbers : (s.calls.map (·.number)).Nodup := by
    refine h.numbered.numbers.nodup_iff.2 (List.nodup_range.map_on ?_)
    intro m hm n hn heq
    rw [List.mem_range] at hm hn
    have hnat := congrArg UInt64.toNat heq
    rwa [UInt64.toNat_ofNat_of_lt' (by omega), UInt64.toNat_ofNat_of_lt' (by omega)] at hnat
  have hgenerators := hnumbers.map (Provider.generatorOfCall_injective seed)
  rwa [List.map_map] at hgenerators

/-- A batch depends on the base seed, the number, the count and the tier of its call and on nothing
else that happened: it is what a provider gives that has the call to itself. It has as many strings
as are asked for, each of which is read as the question of its puzzle. Different numbers give
different generators, and so the calls of a provider do until it has no new numbers left. -/
theorem calls_independent (h : Reachable seed s) :
    (∀ a ∈ s.answered, ∃ puzzles next,
      Provider.puzzles a.1.count (.ofLevel a.1.level) ⟨seed, a.1.number⟩ = some (puzzles, next) ∧
      a.2 = puzzles.map Puzzle.transport ∧ a.2.length = a.1.count ∧
      ∀ p ∈ puzzles, Question.ofTransport p.transport =
        .ok ⟨p.target, p.numbers, p.display, p.canonicalAnswer⟩) ∧
    (s.calls.length ≤ UInt64.size → (s.calls.map (Call.generator seed)).Nodup) ∧
    ∀ m n, m ≠ n → Provider.generatorOfCall seed m ≠ Provider.generatorOfCall seed n := by
  refine ⟨?_, h.nodup_generators, fun m n hne heq =>
    hne (Provider.generatorOfCall_injective seed heq)⟩
  intro a ha
  obtain ⟨puzzles, g, hmade, hstrings⟩ := h.sound.answered a ha
  obtain ⟨hlength, hread⟩ := Generator.draws_eq_some Puzzle.ofTransport_transport hmade
  refine ⟨puzzles, _, Provider.puzzles_eq_some_iff.2 ⟨⟨g, hmade⟩, rfl⟩, hstrings, ?_, hread⟩
  rw [hstrings, List.length_map, hlength]

/-- The call that begins last is answered first, while the other has made no puzzle yet. -/
theorem calls_independent_overtaken :
    ∃ (s : Shared) (string : String) (p : Puzzle),
      Reachable 0x905F7E6A6FB9EBEC s ∧ s.answered = [(⟨1, 1, 1, -5⟩, [string])] ∧
      s.calls.map (·.number) = [0, 1] ∧ p.target = Fraction.whole 4 ∧
      Question.ofTransport string = .ok ⟨p.target, p.numbers, p.display, p.canonicalAnswer⟩ ∧
      (s.calls.map (Call.generator 0x905F7E6A6FB9EBEC)).Nodup := by
  obtain ⟨p, g', hmade, htarget⟩ := Puzzle.generate_ofSeed_49
  have hgenerator : Provider.generatorOfCall 0x905F7E6A6FB9EBEC 1 = .ofSeed 49 := by decide
  rw [← hgenerator] at hmade
  let first : Progress := ⟨⟨0, 0, 3, 2⟩, [], Provider.generatorOfCall 0x905F7E6A6FB9EBEC 0⟩
  let second : Call := ⟨1, 1, 1, -5⟩
  let provider : Provider := ⟨0x905F7E6A6FB9EBEC, 2⟩
  have htaken : Reachable 0x905F7E6A6FB9EBEC
      ⟨provider, [⟨second, [], Provider.generatorOfCall 0x905F7E6A6FB9EBEC 1⟩, first], []⟩ :=
    (Reachable.start.step (.take 0 3 2 _ _ _)).step (.take 1 1 (-5) _ _ _)
  have hrunning : Reachable 0x905F7E6A6FB9EBEC ⟨provider, [⟨second, [p], g'⟩, first], []⟩ :=
    htaken.step (.make [] (by decide) hmade)
  have hdone : Reachable 0x905F7E6A6FB9EBEC ⟨provider, [first], [(second, [p.transport])]⟩ :=
    hrunning.step (.answer [] rfl)
  obtain ⟨hanswered, hnodup, -⟩ := calls_independent hdone
  obtain ⟨puzzles, next, hpuzzles, -, -, hread⟩ := hanswered _ List.mem_cons_self
  have honly : Provider.puzzles 1 .easy ⟨0x905F7E6A6FB9EBEC, 1⟩ = some ([p], provider) := by
    refine Provider.puzzles_eq_some_iff.2 ⟨⟨g', ?_⟩, rfl⟩
    simp [Puzzle.generateMany, Generator.draws, hmade]
  cases honly.symm.trans hpuzzles
  exact ⟨_, p.transport, p, hdone, rfl, rfl, htarget, hread p List.mem_cons_self,
    hnodup (Nat.le_of_ble_eq_true rfl)⟩

end Shared
end TargetQuiz

import TargetQuiz.Expression.Evaluate
import TargetQuiz.Main
import TargetQuiz.Proofs.ExpressionInfix
import TargetQuiz.Proofs.ExpressionPostorder
import TargetQuiz.Proofs.ExpressionScan
import TargetQuiz.Proofs.FractionExact
import TargetQuiz.Proofs.ExpressionAcceptance
import TargetQuiz.Proofs.ExpressionPlacement
import TargetQuiz.Proofs.ChainText
import TargetQuiz.Proofs.ChainSearch
import TargetQuiz.Proofs.PuzzleDecomposition
import TargetQuiz.Proofs.RandomDraw
import TargetQuiz.Proofs.PuzzleDraw
import TargetQuiz.Proofs.PuzzleWitness
import TargetQuiz.Proofs.ChainShortest
import TargetQuiz.Proofs.PuzzleSearch
import TargetQuiz.Proofs.PuzzleOffer
import TargetQuiz.Proofs.Binary64Order
import TargetQuiz.Proofs.FractionDoubleWords
import TargetQuiz.Proofs.Binary64Decimal
import TargetQuiz.Proofs.JsonRoundTrip
import TargetQuiz.Proofs.WireRoundTrip
import TargetQuiz.Proofs.FractionText
import TargetQuiz.Proofs.TransportRoundTrip
import TargetQuiz.Proofs.RandomSeed
import TargetQuiz.Proofs.ProviderCalls
import TargetQuiz.Proofs.ExpressionFusion
import TargetQuiz.Proofs.ExpressionReading
import TargetQuiz.Proofs.ExpressionMixed
import TargetQuiz.Proofs.ExpressionMixedReading
import TargetQuiz.Proofs.ExpressionPositions
import TargetQuiz.Proofs.VerdictGuards
import TargetQuiz.Proofs.ExpressionInclusion
import TargetQuiz.Proofs.DisplayNotation
import TargetQuiz.Proofs.ExpressionRewriting
import TargetQuiz.Proofs.PuzzleTarget
import TargetQuiz.Proofs.FractionFloor
import TargetQuiz.Proofs.FractionOrder
import TargetQuiz.Proofs.TierSchedule
import TargetQuiz.Proofs.RandomStep
import TargetQuiz.Proofs.RandomRange
import TargetQuiz.Proofs.RandomShuffle
import TargetQuiz.Proofs.RandomCycle
import TargetQuiz.Proofs.RandomRepeat
import TargetQuiz.Proofs.PuzzleReturns
import TargetQuiz.Proofs.ExpressionConservation
import TargetQuiz.Proofs.ExpressionFirstFailure
import TargetQuiz.Proofs.SettingsLookup
import TargetQuiz.Proofs.WireReading

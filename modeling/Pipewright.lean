import Pipewright.Definition.Encode
import Pipewright.Main
import Pipewright.Proofs.OrdinaryErrors
import Pipewright.Proofs.StepInduction
import Pipewright.Proofs.Composition
import Pipewright.Proofs.Frame
import Pipewright.Proofs.Growth
import Pipewright.Proofs.Halting
import Pipewright.Proofs.Accounting
import Pipewright.Proofs.Recovery
import Pipewright.Proofs.Refusal
import Pipewright.Proofs.ImplicitConjunction
import Pipewright.Proofs.AcceptedDefinitions
import Pipewright.Proofs.Branches
import Pipewright.Proofs.Lockstep
import Pipewright.Proofs.Ceilings
import Pipewright.Proofs.Finally
import Pipewright.Proofs.PathText
import Pipewright.Proofs.TraceGrammar
import Pipewright.Proofs.Narration
import Pipewright.Proofs.OutlinePlaces
import Pipewright.Proofs.PlannedSteps
import Pipewright.Proofs.Mentions
import Pipewright.Proofs.TwinRuns
import Pipewright.Proofs.NonInterference
import Pipewright.Proofs.Relocation
import Pipewright.Proofs.RelocatedSteps
import Pipewright.Proofs.LoopRounds
import Pipewright.Proofs.NestedPipelines
import Pipewright.Proofs.DepthReach
import Pipewright.Proofs.StaticBounds
import Pipewright.Proofs.NestingCeiling
import Pipewright.Proofs.DefinitionRoundTrip
import Pipewright.Proofs.DeclaredSteps
import Pipewright.Proofs.Attribution
import Pipewright.Proofs.OwnFailures
import Pipewright.Proofs.FailedRuns
import Pipewright.Proofs.Resolution
import Pipewright.Proofs.ErrorOrigins
import Pipewright.Proofs.FoundNames
import Pipewright.Proofs.Foresight
import Pipewright.Proofs.ValueOrder
import Pipewright.Proofs.StableSort
import Pipewright.Proofs.ItemConditions
import Pipewright.Proofs.Extremes
import Pipewright.Proofs.Rounding
import Pipewright.Proofs.IntegerOrder
import Pipewright.Proofs.ExactSum
import Pipewright.Proofs.Slices
import Pipewright.Proofs.OperatorOrder
import Pipewright.Proofs.Flattening
import Pipewright.Proofs.SeparatedTexts
import Pipewright.Proofs.Grouping
import Pipewright.Proofs.ValueEquality
import Pipewright.Proofs.FirstOccurrences
import Pipewright.Proofs.NegationNormalForm
import Pipewright.Proofs.OutlineIndex
import Pipewright.Proofs.ReferenceGrammar
import Pipewright.Proofs.ProblemTexts
import Pipewright.Proofs.DistinctFindings
import Pipewright.Proofs.MeasuredScopes
import Pipewright.Proofs.NumericAggregates

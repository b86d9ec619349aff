import ImpStack.Main
import ImpStack.Code.Label
import ImpStack.Proofs.LocalNames
import ImpStack.Proofs.Evaluation
import ImpStack.Proofs.Execution
import ImpStack.Proofs.Lowering
import ImpStack.Proofs.Slots
import ImpStack.Proofs.Activation
import ImpStack.Proofs.ExprSimulation
import ImpStack.Proofs.StmtSimulation
import ImpStack.Proofs.CallSimulation
import ImpStack.Proofs.Correctness
import ImpStack.Proofs.StackHeight
import ImpStack.Proofs.StackSafety
import ImpStack.Proofs.BlockScoping
import ImpStack.Proofs.BlockSimulation
import ImpStack.Proofs.Observation
import ImpStack.Proofs.BlockEquivalence
import ImpStack.Proofs.Comparing
import ImpStack.Proofs.ForcedLowering
import ImpStack.Proofs.Approximation
import ImpStack.Proofs.ForcedConditions
import ImpStack.Proofs.ScopingRule
import ImpStack.Proofs.ScopeDecision
import ImpStack.Code.Generator
import ImpStack.Proofs.LoweringFaults
import ImpStack.Proofs.Generation
import ImpStack.Proofs.SeparateCompilation
import ImpStack.Proofs.LocalRenaming
import ImpStack.Proofs.Agreement
import ImpStack.Proofs.Grammar
import ImpStack.Proofs.Parsing
import ImpStack.Proofs.ExpressionGrammar
import ImpStack.Proofs.ProgramGrammar
import ImpStack.Proofs.Patterns
import ImpStack.Proofs.Places
import ImpStack.Token.Tokenizer
import ImpStack.Proofs.Coverage
import ImpStack.Proofs.Replay
import ImpStack.Proofs.FrameIsolation
import ImpStack.Proofs.ForwardCode
import ImpStack.Proofs.Termination
import ImpStack.Proofs.PairedReading
import ImpStack.Proofs.NamePlaces
import ImpStack.Proofs.ErrorPlaces
import ImpStack.Proofs.LongestMatch
import ImpStack.Proofs.Lexemes
import ImpStack.Proofs.Respacing
import ImpStack.Proofs.BareStages
import ImpStack.Proofs.LayoutIndependence
import ImpStack.Proofs.LongestToken
import ImpStack.Proofs.FirstImpossibleToken
import ImpStack.Proofs.CursorBound
import ImpStack.Proofs.KnownFunctions
import ImpStack.Proofs.RefusedOutput
import ImpStack.Proofs.TokenDraws
import ImpStack.Proofs.MarkedCharacter
import ImpStack.Proofs.PrintedTrees
import ImpStack.Proofs.Listings
import ImpStack.Proofs.IntegerArithmetic
import ImpStack.Proofs.SlotBijection
import ImpStack.Proofs.ParsingProgress
import ImpStack.Proofs.CursorState
import ImpStack.Proofs.LeavingFrames

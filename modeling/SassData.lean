import SassData.Text.Quoted
import SassData.Text.Blank
import SassData.Text.Word
import SassData.Text.Display
import SassData.Number.Fixed
import SassData.Number
import SassData.Color
import SassData.Value
import SassData.Source.Lexeme
import SassData.Source.Sheet
import SassData.Engine.Literal
import SassData.Host.Path
import SassData.Host.FromStyle
import SassData.Host.ToStyle
import SassData.Document.Toml
import SassData.Command.Run
import SassData.Main
import SassData.Proofs.Source.ArgumentFrames
import SassData.Proofs.Source.BlankTrimming
import SassData.Proofs.Source.CharacterPlaces
import SassData.Proofs.Source.FormulaPrinting
import SassData.Proofs.Source.LexedTexts
import SassData.Proofs.Source.LineBreaks
import SassData.Proofs.Source.OpenFrames
import SassData.Proofs.Source.ParenthesisNesting
import SassData.Proofs.Source.ReadExpressions
import SassData.Proofs.Source.ReadLiterals
import SassData.Proofs.Source.SheetConcatenation
import SassData.Proofs.Source.SignatureParameters
import SassData.Proofs.Source.SpaceLists
import SassData.Proofs.Source.TokenBoundaries
import SassData.Proofs.Source.TokenReading
import SassData.Proofs.Source.TokenSequences
import SassData.Proofs.Source.TokenShapes
import SassData.Proofs.Source.TokenSuffixes
import SassData.Proofs.Source.WrittenExpressions
import SassData.Proofs.Value.CollectionEquality
import SassData.Proofs.Value.MapKeys
import SassData.Proofs.Value.OneLineText
import SassData.Proofs.Value.PlainValueText
import SassData.Proofs.Value.StructuralEquality
import SassData.Proofs.Value.ValueParts
import SassData.Proofs.Value.ValueTextEvaluation
import SassData.Proofs.Value.ValueTextReading
import SassData.Proofs.Quotation.MarkChanges
import SassData.Proofs.Quotation.QuotedLiterals
import SassData.Proofs.Quotation.StringTokens
import SassData.Proofs.Number.FailingOperations
import SassData.Proofs.Number.IntegerRemainders
import SassData.Proofs.Number.NumberOrder
import SassData.Proofs.Number.RoundingBounds
import SassData.Proofs.Number.StyleDecimals
import SassData.Proofs.Number.UnitSums
import SassData.Proofs.Unit.ReducedUnits
import SassData.Proofs.Unit.UnitExponents
import SassData.Proofs.Unit.UnitRecognition
import SassData.Proofs.Unit.UnitTexts
import SassData.Proofs.Color.ArithmeticShades
import SassData.Proofs.Color.ColorCoordinates
import SassData.Proofs.Color.ColorRange
import SassData.Proofs.Color.ExactConversions
import SassData.Proofs.Color.HexadecimalColors
import SassData.Proofs.Evaluation.AddedFunctions
import SassData.Proofs.Evaluation.ArgumentBinding
import SassData.Proofs.Evaluation.ArgumentDelivery
import SassData.Proofs.Evaluation.ArgumentFit
import SassData.Proofs.Evaluation.BracketedLists
import SassData.Proofs.Evaluation.EvaluationSteps
import SassData.Proofs.Evaluation.ForeignFailures
import SassData.Proofs.Evaluation.FunctionRegistries
import SassData.Proofs.Evaluation.MadeStrings
import SassData.Proofs.Evaluation.NamedValues
import SassData.Proofs.Evaluation.RelatedScopes
import SassData.Proofs.Evaluation.UncalledFunctions
import SassData.Proofs.Evaluation.ValueInvariants
import SassData.Proofs.Evaluation.VariableUse
import SassData.Proofs.Session.DeclarationText
import SassData.Proofs.Session.ScopedSheets
import SassData.Proofs.Session.SessionSteps
import SassData.Proofs.Session.SheetAnswers
import SassData.Proofs.Session.SheetParts
import SassData.Proofs.Session.StuckSheets
import SassData.Proofs.Literal.LiteralExpressions
import SassData.Proofs.Literal.LiteralTexts
import SassData.Proofs.Literal.ProbeReading
import SassData.Proofs.Host.DataPaths
import SassData.Proofs.Host.FutureTransparency
import SassData.Proofs.Host.MapEntries
import SassData.Proofs.Host.NumericPaths
import SassData.Proofs.Host.PreservedMarks
import SassData.Proofs.Host.PrintedData
import SassData.Proofs.Host.ResultChains
import SassData.Proofs.Host.ReturnedData
import SassData.Proofs.Host.StylePlans
import SassData.Proofs.Host.UnfoldedData
import SassData.Proofs.Module.DocumentContents
import SassData.Proofs.Module.FileSelectors
import SassData.Proofs.Future.CallbackMachine
import SassData.Proofs.Future.Combinations
import SassData.Proofs.Future.FutureNetworks
import SassData.Proofs.Future.MachineCalls
import SassData.Proofs.Future.MachineProgress
import SassData.Proofs.Future.MachineStore
import SassData.Proofs.Future.MachineTermination
import SassData.Proofs.Future.NetworkConfluence
import SassData.Proofs.Future.PlanResults
import SassData.Proofs.Future.StoreStates
import SassData.Proofs.Future.UnansweredCombinations

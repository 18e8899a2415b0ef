import YapLang.Main
import YapLang.Proofs.TextLetters
import YapLang.Proofs.TreeParts
import YapLang.Proofs.Grammar
import YapLang.Proofs.GrammarSoundness
import YapLang.Proofs.GrammarCompleteness
import YapLang.Proofs.ProperTrees
import YapLang.Proofs.RunLogic
import YapLang.Proofs.ScopeFrames
import YapLang.Proofs.ScopeChains
import YapLang.Proofs.RunLetters
import YapLang.Proofs.FaultSafety
import YapLang.Proofs.DoubleBits
import YapLang.Proofs.NumberText
import YapLang.Proofs.StringText
import YapLang.Proofs.ArrayContents
import YapLang.Proofs.PrintedArrays
import YapLang.Proofs.Cutting
import YapLang.Proofs.LineBreaks
import YapLang.Proofs.SourceJoins
import YapLang.Proofs.ScriptTokens
import YapLang.Proofs.ScriptExpressions
import YapLang.Proofs.ScriptRoundTrip
import YapLang.Proofs.MachineSteps
import YapLang.Proofs.RunSteps
import YapLang.Proofs.ReachableStates
import YapLang.Proofs.PairedRuns
import YapLang.Proofs.UnseenNames
import YapLang.Proofs.JsonText
import YapLang.Proofs.TreeDocuments
import YapLang.Proofs.Reloading
import YapLang.Proofs.LogLevels
import YapLang.Proofs.StackLimits
import YapLang.Proofs.TrimmedDocuments
import YapLang.Proofs.LexicalForms
import YapLang.Proofs.Tiling
import YapLang.Proofs.SourceLayout
import YapLang.Proofs.TokenValues
import YapLang.Proofs.Lookahead
import YapLang.Proofs.ViablePrefixes
import YapLang.Proofs.Renderings
import YapLang.Proofs.Unfoldings
import YapLang.Proofs.ArrayNumbers
import YapLang.Proofs.PrintedNumbers
import YapLang.Proofs.LoopForms
import YapLang.Proofs.ScopeLookup
import YapLang.Proofs.DocumentSchema
import YapLang.Proofs.DocumentFaults
import YapLang.Proofs.UncheckedRuns
import YapLang.Proofs.UncheckedLooks
import YapLang.Proofs.UncheckedSafety
import YapLang.Proofs.EqualityLaws
import YapLang.Proofs.SourceErrors
import YapLang.Proofs.NumberRange
import YapLang.Proofs.WholeNumbers
import YapLang.Proofs.DottedMembers

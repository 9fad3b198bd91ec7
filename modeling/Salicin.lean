import Salicin.Caching.SafePublication
import Salicin.Cleanup.AnalysisSoundness
import Salicin.Cleanup.SubtreeIntervals
import Salicin.Codegen.AccessBoundaries
import Salicin.Codegen.ArithmeticAgreement
import Salicin.Codegen.Calls.CallStaging
import Salicin.Codegen.DropAgreement
import Salicin.Codegen.DynamicIndex
import Salicin.Codegen.FallibleResults
import Salicin.Codegen.FlowJoins
import Salicin.Codegen.Instantiation
import Salicin.Codegen.MoveTracking
import Salicin.Codegen.StaticValues
import Salicin.Editor.FileUris
import Salicin.Editor.SemanticTokens
import Salicin.Editor.ServerRuns
import Salicin.Editor.SourceCoordinates
import Salicin.Editor.Transport
import Salicin.Formatting.IntegerText
import Salicin.Incremental.Canonical
import Salicin.Locking.RoundTrip
import Salicin.Matching.Commits
import Salicin.Matching.Remainders
import Salicin.Modules.ApiSoundness
import Salicin.Modules.ImportSoundness
import Salicin.Modules.LexicalScoping
import Salicin.Modules.SymbolOrder
import Salicin.Parsing.OperatorGrammar
import Salicin.Preparation.MirroredArchives
import Salicin.Registry.LoadedAnswer
import Salicin.Streams.Transfers
import Salicin.Strings.Search
import Salicin.Testing.ReportRoundTrip
import Salicin.Vectors.Refinement
import Salicin.Vectors.Slices

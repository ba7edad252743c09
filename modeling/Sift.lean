import Sift.Derive.Table
import Sift.Filter.Equivalence
import Sift.Filter.Json
import Sift.Json.Reader
import Sift.Proofs.Addressable
import Sift.Proofs.Alternatives
import Sift.Proofs.Canonical
import Sift.Proofs.CaseFolding
import Sift.Proofs.Composition
import Sift.Proofs.DepthLimit
import Sift.Proofs.Equivalence
import Sift.Proofs.EquivalenceLaws
import Sift.Proofs.Height
import Sift.Proofs.LiteralSets
import Sift.Proofs.LostMatches
import Sift.Proofs.MemberTables
import Sift.Proofs.MixedNumbers
import Sift.Proofs.NormalForm
import Sift.Proofs.OrderCoherence
import Sift.Proofs.Ordering
import Sift.Proofs.Readability
import Sift.Proofs.Rendering
import Sift.Proofs.SingleComparison
import Sift.Proofs.Storage
import Sift.Proofs.StoredOperand
import Sift.Proofs.StoredValues
import Sift.Proofs.TypeSoundness
import Sift.Proofs.TypedText
import Sift.Proofs.WellFormed
import Sift.Proofs.WholeFloats
import Sift.Query.Compile
import Sift.Query.Inspection
import Sift.Query.Member
import Sift.Query.Order
import Sift.Settings.Logging
import Sift.Settings.Reader
import Sift.Sorting.Reader
import Sift.Proofs.SortPattern
import Sift.Proofs.SortParts
import Sift.Proofs.QueryErrors
import Sift.Proofs.SortFields
import Sift.Filter.RuleTree
import Sift.Proofs.RuleTrees
import Sift.Proofs.RuleWords
import Sift.Proofs.RuleValues
import Sift.Proofs.RuleReading
import Sift.Proofs.PathText
import Sift.Proofs.SortText
import Sift.Proofs.ErrorSpans
import Sift.Proofs.Substitution

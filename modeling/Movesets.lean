import Movesets.Actor
import Movesets.Animation
import Movesets.Block
import Movesets.Candidates
import Movesets.Category
import Movesets.Combo
import Movesets.CommandLine
import Movesets.Condition.Basic
import Movesets.Condition.Document
import Movesets.Condition.Meaning
import Movesets.Cycler
import Movesets.Data.Basic
import Movesets.Data.Decoding
import Movesets.Data.Dialect
import Movesets.Data.Printer
import Movesets.Data.Quoted
import Movesets.Data.Reader
import Movesets.Document
import Movesets.Draw
import Movesets.Environment
import Movesets.Exclusion
import Movesets.FlagSet
import Movesets.Form
import Movesets.Library
import Movesets.Main
import Movesets.Model
import Movesets.Number.Binary
import Movesets.Number.Decimal
import Movesets.Number.Scaled
import Movesets.ParentCounts
import Movesets.Playlist.Entry
import Movesets.Playlist.Order
import Movesets.Playlist.Variant
import Movesets.Proofs.Attainability
import Movesets.Proofs.CandidateOrdinals
import Movesets.Proofs.CategoryOverlap
import Movesets.Proofs.Compilation
import Movesets.Proofs.Equipment
import Movesets.Proofs.Exclusivity
import Movesets.Proofs.Gates
import Movesets.Proofs.KeywordClaims
import Movesets.Proofs.LoneParent
import Movesets.Proofs.Ordinals
import Movesets.Proofs.Precedence
import Movesets.Proofs.ResolvedRule
import Movesets.Proofs.RuleSeparation
import Movesets.Proofs.Satisfaction
import Movesets.Proofs.Shared
import Movesets.Resolution
import Movesets.Rule
import Movesets.RulesFile
import Movesets.Session
import Movesets.Settings
import Movesets.Storage.Config
import Movesets.Storage.Disk
import Movesets.Storage.Export
import Movesets.Storage.Path
import Movesets.Table
import Movesets.Text.Blank
import Movesets.Text.Case
import Movesets.Text.Hex
import Movesets.Text.Pattern
import Movesets.Text.Split
import Movesets.VariantName
import Movesets.Proofs.Distribution
import Movesets.Proofs.Outlines
import Movesets.Proofs.Pruning
import Movesets.Proofs.EditLocality
import Movesets.Proofs.Spelling
import Movesets.Proofs.WellFormed
import Movesets.Proofs.Widening
import Movesets.Proofs.RoundTrip
import Movesets.Proofs.Reload
import Movesets.Proofs.SessionRuns
import Movesets.Proofs.FreshCounts
import Movesets.Proofs.ComboRuns
import Movesets.Proofs.Drawing
import Movesets.Proofs.Independence
import Movesets.Proofs.RecentPicks
import Movesets.Proofs.OrdinalRange
import Movesets.Proofs.ResolvedIdentity
import Movesets.Proofs.ShownName
import Movesets.Proofs.FileNames
import Movesets.Proofs.ExportRuns
import Movesets.Proofs.PreservedConditions
import Movesets.Proofs.PlaylistOrder
import Movesets.Proofs.LeastRule
import Movesets.Proofs.ParentBlocks
import Movesets.Proofs.SweepEffect
import Movesets.Proofs.RankedCandidates
import Movesets.Proofs.ExcludedKeywords
import Movesets.Proofs.InsertionOrder
import Movesets.Proofs.DrawWeights
import Movesets.Proofs.AddedCategory
import Movesets.Proofs.DistinctKeys
import Movesets.Proofs.UnreadableParts
import Movesets.Proofs.Identities
import Movesets.Proofs.MalformedSections
import Movesets.Proofs.ConditionDocuments
import Movesets.Proofs.EditOutcomes
import Movesets.Proofs.KeysAndNames
import Movesets.Proofs.Reconciling
import Movesets.Proofs.OrdinalCycles
import Movesets.Proofs.Patterns
import Movesets.Proofs.FormTexts
import Movesets.Proofs.FormPattern
import Movesets.Proofs.LatestDefinitions
import Movesets.Proofs.PlayerSteps
import Movesets.Proofs.CycleModes

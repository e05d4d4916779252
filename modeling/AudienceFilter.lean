import AudienceFilter.Calendar.Date
import AudienceFilter.Calendar.Text
import AudienceFilter.Classes
import AudienceFilter.Condition
import AudienceFilter.Context
import AudienceFilter.Conversion
import AudienceFilter.Definition
import AudienceFilter.Directive
import AudienceFilter.Distinct
import AudienceFilter.Error
import AudienceFilter.Expression
import AudienceFilter.Expression.Guard
import AudienceFilter.Expression.Json
import AudienceFilter.Expression.Order
import AudienceFilter.Expression.Text
import AudienceFilter.Expression.Truth
import AudienceFilter.Fault
import AudienceFilter.FilterQuery
import AudienceFilter.FilterQuery.Builder
import AudienceFilter.Fragment
import AudienceFilter.Json
import AudienceFilter.MatchTree
import AudienceFilter.MatchTree.Assigned
import AudienceFilter.MatchTree.Consolidated
import AudienceFilter.MatchTree.Grouped
import AudienceFilter.MatchTree.Leaf
import AudienceFilter.MatchTree.OfExpression
import AudienceFilter.MatchTree.Polarity
import AudienceFilter.MatchTree.Truth
import AudienceFilter.Number.Text
import AudienceFilter.Schema.Catalog
import AudienceFilter.Schema.FieldKind
import AudienceFilter.Schema.Formatter
import AudienceFilter.Schema.Mapping
import AudienceFilter.Schema.Policy
import AudienceFilter.Schema.Value
import AudienceFilter.Script
import AudienceFilter.Sorted
import AudienceFilter.Text.Alphanumeric
import AudienceFilter.Text.Blank
import AudienceFilter.Text.CharRange
import AudienceFilter.Text.Escaped
import AudienceFilter.Text.Name
import AudienceFilter.Text.Printable
import AudienceFilter.Text.Quoted
import AudienceFilter.Text.Template
import AudienceFilter.Proofs.Combination
import AudienceFilter.Proofs.GuardCoverage
import AudienceFilter.Proofs.Results
import AudienceFilter.Proofs.TreeStructure
import AudienceFilter.Proofs.World
import AudienceFilter.Proofs.DayShift
import AudienceFilter.Proofs.GuardTruth
import AudienceFilter.Proofs.LeafTruth
import AudienceFilter.Proofs.ClassMerging
import AudienceFilter.Proofs.ConsolidationSteps
import AudienceFilter.Proofs.ConsolidationTruth
import AudienceFilter.Proofs.GroupingTruth
import AudienceFilter.Proofs.TreeMeaning
import AudienceFilter.Proofs.GatheredClasses
import AudienceFilter.Proofs.GroupingOrder
import AudienceFilter.Proofs.GroupingExtent
import AudienceFilter.Proofs.CompleteMerging
import AudienceFilter.Proofs.CheckedMapping
import AudienceFilter.Proofs.Formula
import AudienceFilter.Proofs.Fragments
import AudienceFilter.Proofs.ScriptGrammar
import AudienceFilter.Proofs.ScriptMeaning
import AudienceFilter.Proofs.QueryMeaning
import AudienceFilter.Proofs.LeafSafety
import AudienceFilter.Proofs.ConsolidationSafety
import AudienceFilter.Proofs.TreeSafety
import AudienceFilter.Proofs.FragmentSafety
import AudienceFilter.Proofs.BuilderRun
import AudienceFilter.Proofs.ConversionSafety
import AudienceFilter.Proofs.AtRest
import AudienceFilter.Proofs.MergedLevels
import AudienceFilter.Proofs.RestReached
import AudienceFilter.Proofs.ConsolidatingAgain
import AudienceFilter.Proofs.Capabilities
import AudienceFilter.Proofs.PermittedConversion
import AudienceFilter.Proofs.EscapedValues
import AudienceFilter.Proofs.InstantRange
import AudienceFilter.Proofs.DateValues
import AudienceFilter.Proofs.DayBounds
import AudienceFilter.Proofs.DayRanges
import AudienceFilter.Proofs.DayAlignment
import AudienceFilter.Proofs.Brackets
import AudienceFilter.Proofs.BuilderCalls
import AudienceFilter.Proofs.TreeAgreement
import AudienceFilter.Proofs.ScriptAgreement
import AudienceFilter.Proofs.IndependentDirectives
import AudienceFilter.Proofs.ScriptSteps
import AudienceFilter.Proofs.StyleIndependence
import AudienceFilter.Proofs.QueryText
import AudienceFilter.Proofs.AppliedFilters
import AudienceFilter.Proofs.KeptArguments
import AudienceFilter.Proofs.FragmentFields
import AudienceFilter.Proofs.QueryFields
import AudienceFilter.Proofs.NormalForm
import AudienceFilter.Proofs.FieldAccounting
import AudienceFilter.Proofs.StoredForm
import AudienceFilter.Proofs.AssignedArguments
import AudienceFilter.Proofs.CanonicalOrder
import AudienceFilter.Proofs.ValueLists
import AudienceFilter.Proofs.Reordering
import AudienceFilter.Proofs.ReorderedMembers
import AudienceFilter.Proofs.PairedBounds
import AudienceFilter.Proofs.ReorderedLevels
import AudienceFilter.Proofs.SeparateQueries
import AudienceFilter.Proofs.ReorderedConversion
import AudienceFilter.Proofs.LeafMembers
import AudienceFilter.Proofs.Placeholders
import AudienceFilter.Proofs.DirectivesInEffect
import AudienceFilter.Proofs.MovedDays
import AudienceFilter.Proofs.DateOrder
import AudienceFilter.Proofs.EscapePositions
import AudienceFilter.Proofs.DateNumbers

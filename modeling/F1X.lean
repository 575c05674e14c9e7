import F1X.Library.Checked
import F1X.Library.Names
import F1X.Library.Overlay
import F1X.Library.GuardedTerm
import F1X.Library.COperators
import F1X.Library.CTokens
import F1X.Library.CGrammar
import F1X.Library.CTrees
import F1X.Library.LP64
import F1X.Library.LowBits
import F1X.Library.WideOperands
import F1X.Library.WideTerms
import F1X.Library.Traps
import F1X.Library.Interaction
import F1X.Library.Commands
import F1X.Library.RunningIntersection
import F1X.Library.NextIndex
import F1X.Library.MoveToFront
import F1X.Library.StableOrder
import F1X.Library.ScopedBindings
import F1X.Core
import F1X.Global
import F1X.Util
import F1X.Typing
import F1X.Loading
import F1X.Runtime.Partition
import F1X.Runtime.GeneratedFunction
import F1X.Runtime.Protocol
import F1X.Runtime.Interruption
import F1X.Runtime.SharedBuffer
import F1X.Runtime.PartitionReads
import F1X.Synthesis.Modifications
import F1X.Synthesis.Edits
import F1X.Synthesis.AbstractNodes
import F1X.Synthesis.Generator
import F1X.Synthesis.WellFormed
import F1X.Synthesis.Synthesizable
import F1X.Synthesis.Accesses
import F1X.Synthesis.DocumentedEdits
import F1X.Synthesis.WellTyped
import F1X.Synthesis.TypedEdits
import F1X.Transform.StmtToJSON
import F1X.Transform.TypeCorrection
import F1X.Transform.SchemaApplications
import F1X.Transform.Expr
import F1X.Synthesis.Candidates
import F1X.Synthesis.SearchSpace
import F1X.Synthesis.PatchCount
import F1X.Semantics.Evaluation
import F1X.Semantics.Meaning
import F1X.Semantics.Naming
import F1X.Semantics.Translation
import F1X.Semantics.PrintedText
import F1X.Semantics.Instances
import F1X.Semantics.Dispatch
import F1X.Semantics.Faults
import F1X.Semantics.RuntimeText
import F1X.Semantics.DivisionTraps
import F1X.Semantics.ParameterReadings
import F1X.Semantics.Parameters
import F1X.Semantics.DefinedNames
import F1X.Semantics.ElementSizes
import F1X.Semantics.LoadedScope
import F1X.Semantics.TestEquivalence
import F1X.Transform.ArgumentList
import F1X.Transform.NullSafety
import F1X.Repair.ProjectFiles
import F1X.Repair.Profiler
import F1X.Repair.SearchEngine
import F1X.Repair.PlainSearch
import F1X.Repair.RelatedTests
import F1X.Repair.PartitionSize
import F1X.Repair.SearchSpaceDump
import F1X.Repair.Coverage
import F1X.Repair.Prioritization
import F1X.Repair.Repair
import F1X.Repair.Project
import F1X.Repair.Main
import F1X.Repair.Restoration
import F1X.Repair.Validation
import F1X.Repair.CoverageReport
import F1X.Repair.Environment
import F1X.Repair.FilesArgument
import F1X.Transform.ConditionContext
import F1X.Repair.FaultLocalization
import F1X.Transform.GuardExtraction
import F1X.Library.CStatements
import F1X.Transform.GuardedStatements
import F1X.Library.LexicalScopes
import F1X.Transform.Shadowing
import F1X.Library.LexicalPaths
import F1X.Repair.RelativePaths
import F1X.Library.TextLines
import F1X.Repair.ProfileText
import F1X.Repair.HostedTests
import F1X.Repair.RuntimeSearch
import F1X.Repair.Executions
import F1X.Library.LabelledTrees
import F1X.Transform.SearchSpaceMatchers
import F1X.Transform.MatchedPositions
import F1X.Transform.ConditionParts
import F1X.Transform.MatchedExpressions
import F1X.Library.FirstOfKey
import F1X.Library.TreeEdits
import F1X.Transform.Handlers
import F1X.Transform.Phases
import F1X.Transform.InstrumentedMeaning
import F1X.Repair.PatchTemplates
import F1X.Repair.WholeRuns
import F1X.Library.Words
import F1X.Repair.CompilationDatabase
import F1X.Transform.ProfiledExtraction
import F1X.Repair.PatchedProject
import F1X.Repair.CoverageFiles
import F1X.Library.CSubstitution
import F1X.Semantics.PrintedTree
import F1X.Repair.PatchedText

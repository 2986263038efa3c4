import ProjectAssembler.CommandLine.Run
import ProjectAssembler.FileSystem.Snapshot
import ProjectAssembler.Main
import ProjectAssembler.Proofs.Compilation.Units
import ProjectAssembler.Proofs.FileSystem.LinkFree
import ProjectAssembler.Proofs.Packages.DeadEnds
import ProjectAssembler.Proofs.Packages.Enumeration
import ProjectAssembler.Proofs.Project.Closure
import ProjectAssembler.Proofs.Project.OpenProjects
import ProjectAssembler.Proofs.Project.Sessions
import ProjectAssembler.Proofs.Source.BracedHeaders
import ProjectAssembler.Proofs.Source.ConditionalText
import ProjectAssembler.Proofs.Source.DeclarationLines
import ProjectAssembler.Proofs.Source.DocumentationLines
import ProjectAssembler.Proofs.Source.LineEndings
import ProjectAssembler.Proofs.Source.TokenSpans
import ProjectAssembler.Proofs.Sources.Wildcards
import ProjectAssembler.Proofs.Source.Renaming
import ProjectAssembler.Proofs.Source.ContextualKeywords
import ProjectAssembler.Proofs.Source.VerbatimIdentifiers
import ProjectAssembler.Proofs.Source.OpenText
import ProjectAssembler.Proofs.Source.ShelteredLines
import ProjectAssembler.Proofs.Source.ConditionTruth
import ProjectAssembler.Proofs.Sources.PatternMatches
import ProjectAssembler.Proofs.Source.VerbatimStrings
import ProjectAssembler.Proofs.Source.LiteralGrammar
import ProjectAssembler.Proofs.Source.GlobalAttributes
import ProjectAssembler.Proofs.Source.BlockBodies
import ProjectAssembler.Proofs.Report.LimitedTrees
import ProjectAssembler.Proofs.Sources.MissingDirectories
import ProjectAssembler.Proofs.Project.WrappedDescriptors
import ProjectAssembler.Proofs.Settings.MergedConfigs
import ProjectAssembler.Proofs.Project.IndexedGraphs
import ProjectAssembler.Proofs.Compilation.SettledReferences
import ProjectAssembler.Proofs.Sources.DoubledSegments
import ProjectAssembler.Proofs.Source.SpacedTokens

import PklBindings.Annotation
import PklBindings.Binding
import PklBindings.Block
import PklBindings.Collision
import PklBindings.CommandLine
import PklBindings.Declaration
import PklBindings.Diagnostic
import PklBindings.Disk.Basic
import PklBindings.Disk.FileSystem
import PklBindings.Disk.Path
import PklBindings.Disk.Writing
import PklBindings.DocComment
import PklBindings.Document
import PklBindings.Emission
import PklBindings.Generation
import PklBindings.GenerationError
import PklBindings.Graph
import PklBindings.Identifier
import PklBindings.Json.Basic
import PklBindings.Json.Number
import PklBindings.Json.Parser
import PklBindings.Location
import PklBindings.Main
import PklBindings.Member.Basic
import PklBindings.Member.Dataclass
import PklBindings.Member.Enumeration
import PklBindings.Member.OfDeclaration
import PklBindings.Member.Order
import PklBindings.Member.TypeAlias
import PklBindings.ModuleName
import PklBindings.Options
import PklBindings.PklType
import PklBindings.Quoted
import PklBindings.Reflection.Decoder
import PklBindings.Reflection.Fault
import PklBindings.Schema
import PklBindings.Settings
import PklBindings.Target
import PklBindings.Text
import PklBindings.TextReader
import PklBindings.TextReader.Strict
import PklBindings.Proofs.Acceptance
import PklBindings.Proofs.AliasOrder
import PklBindings.Proofs.AnnotationParts
import PklBindings.Proofs.Collisions
import PklBindings.Proofs.CommandLineRuns
import PklBindings.Proofs.DeclarationAcceptance
import PklBindings.Proofs.DefaultBindings
import PklBindings.Proofs.DiskActions
import PklBindings.Proofs.DiskFrame
import PklBindings.Proofs.DiskLookup
import PklBindings.Proofs.DiskPaths
import PklBindings.Proofs.DiskTree
import PklBindings.Proofs.DistinctNames
import PklBindings.Proofs.DistinctSources
import PklBindings.Proofs.DocumentLines
import PklBindings.Proofs.DryRun
import PklBindings.Proofs.EmittedFiles
import PklBindings.Proofs.Generation
import PklBindings.Proofs.HiddenProperties
import PklBindings.Proofs.KeptRelations
import PklBindings.Proofs.GraphSorting
import PklBindings.Proofs.MemberOrder
import PklBindings.Proofs.Members
import PklBindings.Proofs.ModuleOrder
import PklBindings.Proofs.NameAgreement
import PklBindings.Proofs.OpenLines
import PklBindings.Proofs.ReadSchema
import PklBindings.Proofs.ResolvedReferences
import PklBindings.Proofs.Results
import PklBindings.Proofs.SafeEmission
import PklBindings.Proofs.SchemaEncoding
import PklBindings.Proofs.SchemaGrammar
import PklBindings.Proofs.SchemaRoundTrip
import PklBindings.Proofs.Selection
import PklBindings.Proofs.TableLocality
import PklBindings.Proofs.WrittenFiles
import PklBindings.Proofs.GenerationRemarks
import PklBindings.Proofs.OneTextApart
import PklBindings.Proofs.ArgumentGroups
import PklBindings.Proofs.Flags
import PklBindings.Proofs.FlagsAsSettings
import PklBindings.Proofs.FirstOccurrences
import PklBindings.Proofs.GenerationFaults
import PklBindings.Proofs.MemberLines
import PklBindings.Proofs.DocumentLayout
import PklBindings.Proofs.EnumConstants
import PklBindings.Proofs.ClassAttributes
import PklBindings.Proofs.RepresentableSchemas
import PklBindings.Proofs.WellFormedSchemas
import PklBindings.Proofs.RelatedRuns
import PklBindings.Proofs.RewrittenFiles
import PklBindings.Proofs.MirroredRuns
import PklBindings.Proofs.Regeneration
import PklBindings.Proofs.QuotedText
import PklBindings.Proofs.ModuleNames
import PklBindings.Proofs.AnnotationReader
import PklBindings.Proofs.UnambiguousAnnotations
import PklBindings.Proofs.AnnotationDefects
import PklBindings.Proofs.ImportedModules
import PklBindings.Proofs.Docstrings
import PklBindings.Proofs.Identifiers
import PklBindings.Proofs.SnakeCase
import PklBindings.Proofs.EnumerationClasses
import PklBindings.Proofs.RegisteredConstants
import PklBindings.Proofs.CommentLines
import PklBindings.Proofs.ClassFaults
import PklBindings.Proofs.Texts
import PklBindings.Proofs.CircularMembers
import PklBindings.Proofs.FaultPlaces
import PklBindings.Proofs.ComposedSettings
import PklBindings.Proofs.RefusedSettings
import PklBindings.Proofs.PermutedArguments
import PklBindings.Proofs.ImportableNames
import PklBindings.Proofs.ReadingSessions
import PklBindings.Proofs.QuotedBytes
import PklBindings.Proofs.NamesOfBytes
import PklBindings.Proofs.StableNames
import PklBindings.Proofs.NestedBlocks

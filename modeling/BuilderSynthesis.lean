import BuilderSynthesis.Builder.Code
import BuilderSynthesis.Builder.Fragment
import BuilderSynthesis.Builder.Pieces
import BuilderSynthesis.Built.Error
import BuilderSynthesis.Built.Sample
import BuilderSynthesis.Built.Slots
import BuilderSynthesis.Declaration.Basic
import BuilderSynthesis.Declaration.Directive
import BuilderSynthesis.Declaration.Host
import BuilderSynthesis.Declaration.TypeRef
import BuilderSynthesis.Descriptor.Basic
import BuilderSynthesis.Descriptor.Collection
import BuilderSynthesis.Diagnostic
import BuilderSynthesis.Expansion.Directives
import BuilderSynthesis.Expansion.Stripped
import BuilderSynthesis.Files.Discovery
import BuilderSynthesis.Files.Entries
import BuilderSynthesis.Files.Listing
import BuilderSynthesis.Files.Path
import BuilderSynthesis.Files.Tree
import BuilderSynthesis.Log.Event
import BuilderSynthesis.Log.Filter
import BuilderSynthesis.Log.Setup
import BuilderSynthesis.Log.ValuePattern
import BuilderSynthesis.Manifest.Package
import BuilderSynthesis.Manifest.Settings
import BuilderSynthesis.Module
import BuilderSynthesis.Pass.BuildScript
import BuilderSynthesis.Pass.BuilderDirectory
import BuilderSynthesis.Pass.Config
import BuilderSynthesis.Pass.Error
import BuilderSynthesis.Pass.Generate
import BuilderSynthesis.Pass.Run
import BuilderSynthesis.Plan.Basic
import BuilderSynthesis.Plan.Default
import BuilderSynthesis.Plan.Describe
import BuilderSynthesis.Plan.Metadata
import BuilderSynthesis.Plan.Request
import BuilderSynthesis.Proofs.DeclaredTexts
import BuilderSynthesis.Proofs.AcceptedModifiers
import BuilderSynthesis.Proofs.Accounting
import BuilderSynthesis.Proofs.Adjustments
import BuilderSynthesis.Proofs.AnchoredPaths
import BuilderSynthesis.Proofs.BuilderRuns
import BuilderSynthesis.Proofs.Clashes
import BuilderSynthesis.Proofs.Convergence
import BuilderSynthesis.Proofs.DescribedTypes
import BuilderSynthesis.Proofs.DescriptorTexts
import BuilderSynthesis.Proofs.Emission
import BuilderSynthesis.Proofs.ExternalBuilders
import BuilderSynthesis.Proofs.FileTree
import BuilderSynthesis.Proofs.FinishedValues
import BuilderSynthesis.Proofs.Inclusion
import BuilderSynthesis.Proofs.ItemOrder
import BuilderSynthesis.Proofs.Items
import BuilderSynthesis.Proofs.Lexemes
import BuilderSynthesis.Proofs.Lookup
import BuilderSynthesis.Proofs.Names
import BuilderSynthesis.Proofs.PassFrame
import BuilderSynthesis.Proofs.Paths
import BuilderSynthesis.Proofs.Planning
import BuilderSynthesis.Proofs.PrintedTypes
import BuilderSynthesis.Proofs.Reading
import BuilderSynthesis.Proofs.Rereading
import BuilderSynthesis.Proofs.ReadTypes
import BuilderSynthesis.Proofs.PlainTypes
import BuilderSynthesis.Proofs.PathReading
import BuilderSynthesis.Proofs.TypeReading
import BuilderSynthesis.Proofs.SampleBuilders
import BuilderSynthesis.Proofs.Scanned
import BuilderSynthesis.Proofs.SeparateFiles
import BuilderSynthesis.Proofs.SourceOrder
import BuilderSynthesis.Proofs.Spelling
import BuilderSynthesis.Proofs.StaleBuilders
import BuilderSynthesis.Proofs.Structs
import BuilderSynthesis.Proofs.TokenOrder
import BuilderSynthesis.Proofs.WrittenOut
import BuilderSynthesis.Route.Outcome
import BuilderSynthesis.Route.Requested
import BuilderSynthesis.Scan.Finding
import BuilderSynthesis.Scan.Items
import BuilderSynthesis.Scan.Load
import BuilderSynthesis.Scan.Marks
import BuilderSynthesis.Scan.SourceTree
import BuilderSynthesis.Syntax.Expression
import BuilderSynthesis.Syntax.Grammar
import BuilderSynthesis.Syntax.Item
import BuilderSynthesis.Syntax.Lexeme
import BuilderSynthesis.Syntax.Lexer
import BuilderSynthesis.Syntax.Parser
import BuilderSynthesis.Syntax.Printer
import BuilderSynthesis.Syntax.Problem
import BuilderSynthesis.Syntax.Read.Attribute
import BuilderSynthesis.Syntax.Read.Expression
import BuilderSynthesis.Syntax.Read.Item
import BuilderSynthesis.Syntax.Read.Pattern
import BuilderSynthesis.Syntax.Read.Statement
import BuilderSynthesis.Syntax.Read.Type
import BuilderSynthesis.Syntax.Surroundings
import BuilderSynthesis.Syntax.Text
import BuilderSynthesis.Syntax.Token
import BuilderSynthesis.Syntax.TypeExpr
import BuilderSynthesis.Text.AlphanumericRanges
import BuilderSynthesis.Text.Character
import BuilderSynthesis.Text.IdentifierRanges
import BuilderSynthesis.Text.Lines
import BuilderSynthesis.Text.PrintableRanges
import BuilderSynthesis.Text.Quoted
import BuilderSynthesis.Text.Ranges
import BuilderSynthesis.Text.Segments
import BuilderSynthesis.Proofs.OwnStructs
import BuilderSynthesis.Proofs.GenericsReading
import BuilderSynthesis.Proofs.ReadItems
import BuilderSynthesis.Proofs.DeclarationReading
import BuilderSynthesis.Proofs.Rendering
import BuilderSynthesis.Proofs.ItemReading
import BuilderSynthesis.Proofs.SignatureReading
import BuilderSynthesis.Proofs.BlockReading
import BuilderSynthesis.Proofs.StrippedItems
import BuilderSynthesis.Proofs.ExpandedItems
import BuilderSynthesis.Proofs.HeldTypes
import BuilderSynthesis.Proofs.Refusals
import BuilderSynthesis.Proofs.CanonicalTypes
import BuilderSynthesis.Proofs.PlannedCalls
import BuilderSynthesis.Proofs.SourceFiles
import BuilderSynthesis.Proofs.ReadableProperties
import BuilderSynthesis.Proofs.NearestStructs
import BuilderSynthesis.Proofs.QuotedText
import BuilderSynthesis.Proofs.QuotedDefaults
import BuilderSynthesis.Proofs.MutableCollections
import BuilderSynthesis.Proofs.StoredTypes
import BuilderSynthesis.Proofs.RecordedModifiers
import BuilderSynthesis.Proofs.CopiedSlots
import BuilderSynthesis.Proofs.ModuleFiles
import BuilderSynthesis.Proofs.Borrows
import BuilderSynthesis.Proofs.GeneratedNames
import BuilderSynthesis.Proofs.BuilderExpressions
import BuilderSynthesis.Proofs.BuilderStatements
import BuilderSynthesis.Proofs.BuilderFunctions
import BuilderSynthesis.Proofs.BuilderTypes
import BuilderSynthesis.Proofs.BuilderBodies
import BuilderSynthesis.Proofs.BuilderItems
import BuilderSynthesis.Proofs.PrintedBuilders
import BuilderSynthesis.Proofs.PlainDefaults
import BuilderSynthesis.Proofs.ScannedBuilders
import BuilderSynthesis.Proofs.RenderedBuilders

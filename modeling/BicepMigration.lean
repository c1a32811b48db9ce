import BicepMigration.Catalog.ApiVersion
import BicepMigration.Catalog.Bundled
import BicepMigration.Catalog.Calendar
import BicepMigration.Catalog.Format
import BicepMigration.Catalog.JsonDocument
import BicepMigration.Catalog.Lookup
import BicepMigration.Catalog.Mapping
import BicepMigration.Catalog.Schema
import BicepMigration.Catalog.TomlDocument
import BicepMigration.Catalog.VersionRange
import BicepMigration.Catalog.View
import BicepMigration.Catalog.YamlDocument
import BicepMigration.CommandLine.Arguments
import BicepMigration.CommandLine.Command
import BicepMigration.CommandLine.Execution
import BicepMigration.CommandLine.Host
import BicepMigration.CommandLine.Wording
import BicepMigration.Files.FileFault
import BicepMigration.Files.FileTree
import BicepMigration.Files.Path
import BicepMigration.Fingerprint
import BicepMigration.Fingerprint.Blake3
import BicepMigration.Json.Basic
import BicepMigration.Json.Printer
import BicepMigration.Json.Reader
import BicepMigration.Main
import BicepMigration.Migration.Batch
import BicepMigration.Migration.Diagnostic
import BicepMigration.Migration.Elision
import BicepMigration.Migration.ModuleSymbol
import BicepMigration.Migration.Options
import BicepMigration.Migration.Partition
import BicepMigration.Migration.Plan
import BicepMigration.Migration.Reference
import BicepMigration.Migration.Resolution
import BicepMigration.Migration.ResolutionJson
import BicepMigration.Migration.Transformation
import BicepMigration.Migration.Validation
import BicepMigration.Number.Binary64
import BicepMigration.Number.Decimal
import BicepMigration.Proofs.Catalog.CalendarDates
import BicepMigration.Proofs.Catalog.DayCount
import BicepMigration.Proofs.Catalog.MonthLengths
import BicepMigration.Proofs.Catalog.NarrowRanges
import BicepMigration.Proofs.Catalog.Precedence
import BicepMigration.Proofs.Catalog.RangeClauses
import BicepMigration.Proofs.Catalog.VersionText
import BicepMigration.Proofs.CommandLine.WrittenResults
import BicepMigration.Proofs.Files.NamedFiles
import BicepMigration.Proofs.Migration.AnnouncedDeclarations
import BicepMigration.Proofs.Migration.Bodies
import BicepMigration.Proofs.Migration.BodyUses
import BicepMigration.Proofs.Migration.CallText
import BicepMigration.Proofs.Migration.CallUses
import BicepMigration.Proofs.Migration.ClosedBodies
import BicepMigration.Proofs.Migration.CompleteRepair
import BicepMigration.Proofs.Migration.Correspondence
import BicepMigration.Proofs.Migration.CountedErrors
import BicepMigration.Proofs.Migration.DeclarationSearch
import BicepMigration.Proofs.Migration.DerivedSymbols
import BicepMigration.Proofs.Migration.Descent
import BicepMigration.Proofs.Migration.Divided
import BicepMigration.Proofs.Migration.DividedStops
import BicepMigration.Proofs.Migration.ElidedStatements
import BicepMigration.Proofs.Migration.ElidedText
import BicepMigration.Proofs.Migration.Frame
import BicepMigration.Proofs.Migration.FreshSymbols
import BicepMigration.Proofs.Migration.InputNames
import BicepMigration.Proofs.Migration.JoinedPlan
import BicepMigration.Proofs.Migration.JoinedTemplates
import BicepMigration.Proofs.Migration.KeptInputs
import BicepMigration.Proofs.Migration.LeftProperties
import BicepMigration.Proofs.Migration.MigratedStatements
import BicepMigration.Proofs.Migration.MissingCalls
import BicepMigration.Proofs.Migration.Names
import BicepMigration.Proofs.Migration.NestedPaths
import BicepMigration.Proofs.Migration.Optimization
import BicepMigration.Proofs.Migration.Planned
import BicepMigration.Proofs.Migration.PropertyPaths
import BicepMigration.Proofs.Migration.Pruned
import BicepMigration.Proofs.Migration.PrunedStops
import BicepMigration.Proofs.Migration.RenderedStatements
import BicepMigration.Proofs.Migration.RepairedText
import BicepMigration.Proofs.Migration.ResidualDeclarations
import BicepMigration.Proofs.Migration.RetainedProperties
import BicepMigration.Proofs.Migration.ReturnedTemplates
import BicepMigration.Proofs.Migration.RewriteTable
import BicepMigration.Proofs.Migration.SameFindings
import BicepMigration.Proofs.Migration.ScannableArtifacts
import BicepMigration.Proofs.Migration.SeenPlan
import BicepMigration.Proofs.Migration.SettledOutput
import BicepMigration.Proofs.Migration.SightedCalls
import BicepMigration.Proofs.Migration.SoundSlices
import BicepMigration.Proofs.Migration.WrittenReferences
import BicepMigration.Proofs.Number.CheckedArithmetic
import BicepMigration.Proofs.Number.NumberText
import BicepMigration.Proofs.Number.Rounding
import BicepMigration.Proofs.Template.AppendedTemplates
import BicepMigration.Proofs.Template.Aspect
import BicepMigration.Proofs.Template.CallReadBack
import BicepMigration.Proofs.Template.Change
import BicepMigration.Proofs.Template.CountedPlaces
import BicepMigration.Proofs.Template.CoveredBodies
import BicepMigration.Proofs.Template.Datum
import BicepMigration.Proofs.Template.DecidedLiterals
import BicepMigration.Proofs.Template.DeclarationLines
import BicepMigration.Proofs.Template.DependencyUses
import BicepMigration.Proofs.Template.Element
import BicepMigration.Proofs.Template.FoundUses
import BicepMigration.Proofs.Template.FragmentText
import BicepMigration.Proofs.Template.Headings
import BicepMigration.Proofs.Template.Holding
import BicepMigration.Proofs.Template.JoinedStatements
import BicepMigration.Proofs.Template.JoinedText
import BicepMigration.Proofs.Template.KeptUse
import BicepMigration.Proofs.Template.KeyPaths
import BicepMigration.Proofs.Template.Layout
import BicepMigration.Proofs.Template.Lexeme
import BicepMigration.Proofs.Template.LexemeText
import BicepMigration.Proofs.Template.LexerStep
import BicepMigration.Proofs.Template.LiteralUse
import BicepMigration.Proofs.Template.Locator
import BicepMigration.Proofs.Template.MovedTokens
import BicepMigration.Proofs.Template.NestedEdits
import BicepMigration.Proofs.Template.Nesting
import BicepMigration.Proofs.Template.NextUse
import BicepMigration.Proofs.Template.OwnTokens
import BicepMigration.Proofs.Template.Parted
import BicepMigration.Proofs.Template.Pieces
import BicepMigration.Proofs.Template.Placement
import BicepMigration.Proofs.Template.PropertyRoles
import BicepMigration.Proofs.Template.QuotedText
import BicepMigration.Proofs.Template.ReadBack
import BicepMigration.Proofs.Template.ReadUse
import BicepMigration.Proofs.Template.Relocation
import BicepMigration.Proofs.Template.RenamedDeclarations
import BicepMigration.Proofs.Template.RenamedTokens
import BicepMigration.Proofs.Template.Renaming
import BicepMigration.Proofs.Template.RenderedCall
import BicepMigration.Proofs.Template.RenderedText
import BicepMigration.Proofs.Template.RenderedUse
import BicepMigration.Proofs.Template.ReturnedStatements
import BicepMigration.Proofs.Template.ReturnedTokens
import BicepMigration.Proofs.Template.Rewriting
import BicepMigration.Proofs.Template.Rewritten
import BicepMigration.Proofs.Template.RewrittenStatements
import BicepMigration.Proofs.Template.RewrittenUse
import BicepMigration.Proofs.Template.SeenStatements
import BicepMigration.Proofs.Template.Sense
import BicepMigration.Proofs.Template.SharedText
import BicepMigration.Proofs.Template.SightedStatements
import BicepMigration.Proofs.Template.SightedUses
import BicepMigration.Proofs.Template.SightedValues
import BicepMigration.Proofs.Template.Sighting
import BicepMigration.Proofs.Template.SoundSpans
import BicepMigration.Proofs.Template.Splice
import BicepMigration.Proofs.Template.StatementRun
import BicepMigration.Proofs.Template.StatementTokens
import BicepMigration.Proofs.Template.StatementUse
import BicepMigration.Proofs.Template.TokenWord
import BicepMigration.Proofs.Template.UncoveredText
import BicepMigration.Proofs.Template.Unplaced
import BicepMigration.Proofs.Template.UseChange
import BicepMigration.Proofs.Template.UsePlaces
import BicepMigration.Proofs.Template.UsePosition
import BicepMigration.Proofs.Template.UsedText
import BicepMigration.Proofs.Text.CarriageReturns
import BicepMigration.Proofs.Text.CheckedSlice
import BicepMigration.Proofs.Text.LineColumn
import BicepMigration.Proofs.Text.Slice
import BicepMigration.Template.EditedText
import BicepMigration.Template.Lexer
import BicepMigration.Template.Literal
import BicepMigration.Template.PropertyTree
import BicepMigration.Template.Rendering
import BicepMigration.Template.ScanError
import BicepMigration.Template.Scanned
import BicepMigration.Template.Statement
import BicepMigration.Template.SymbolUse
import BicepMigration.Template.Token
import BicepMigration.Template.Value
import BicepMigration.Text.Blank
import BicepMigration.Text.CodeRange
import BicepMigration.Text.Glob
import BicepMigration.Text.Hexadecimal
import BicepMigration.Text.Shown
import BicepMigration.Text.Span
import BicepMigration.Text.WordCharacter
import BicepMigration.Toml.Moment
import BicepMigration.Toml.Reader
import BicepMigration.Toml.Table
import BicepMigration.Toml.Text
import BicepMigration.Yaml.Expansion
import BicepMigration.Yaml.Layout
import BicepMigration.Yaml.Node
import BicepMigration.Yaml.Scalar
import BicepMigration.Yaml.Token
import BicepMigration.Yaml.Value

import WireContract.Cli.Args
import WireContract.Cli.Report
import WireContract.Cli.Run
import WireContract.Double.Basic
import WireContract.Double.Decimal
import WireContract.Emit.Attributes
import WireContract.Emit.Holder
import WireContract.Emit.Imports
import WireContract.Emit.Newtype
import WireContract.Emit.OpenEnum
import WireContract.Emit.Package
import WireContract.Emit.Record
import WireContract.Emit.Scope
import WireContract.Emit.Slot
import WireContract.Emit.TaggedUnion
import WireContract.Emit.Write
import WireContract.Files.Disk
import WireContract.Files.Path
import WireContract.Files.Storage
import WireContract.Graph.Reach
import WireContract.Json.Basic
import WireContract.Json.Draft
import WireContract.Json.Fault
import WireContract.Json.Reader
import WireContract.Json.Text
import WireContract.Layout.Basic
import WireContract.Layout.Render
import WireContract.Main
import WireContract.Proofs.Outcome
import WireContract.Proofs.Reachability
import WireContract.Proofs.References
import WireContract.Proofs.Resolution
import WireContract.Proofs.Spelling
import WireContract.Rust.Expr
import WireContract.Rust.Generic
import WireContract.Rust.Ident
import WireContract.Rust.Item
import WireContract.Rust.Lexeme
import WireContract.Rust.Literal
import WireContract.Rust.Parse
import WireContract.Rust.Place
import WireContract.Rust.Plain
import WireContract.Rust.Source
import WireContract.Rust.Token
import WireContract.Rust.Tree
import WireContract.Rust.Type
import WireContract.Rust.UseBlock
import WireContract.Sample.Canvas
import WireContract.Schema.Boxing
import WireContract.Schema.Contract
import WireContract.Schema.Declaration
import WireContract.Schema.Document
import WireContract.Schema.Error
import WireContract.Schema.FieldRule
import WireContract.Schema.ModuleGraph
import WireContract.Schema.Name
import WireContract.Schema.Outline
import WireContract.Schema.Registry
import WireContract.Schema.TypeRef
import WireContract.Schema.WellFormed
import WireContract.Text.Blank
import WireContract.Text.Case
import WireContract.Text.Case.Table
import WireContract.Text.Ident
import WireContract.Text.Ident.Table
import WireContract.Text.Quoted
import WireContract.Text.Quoted.Table
import WireContract.Text.Split
import WireContract.Text.Words
import WireContract.Wire.Base64
import WireContract.Wire.Decode
import WireContract.Wire.Encode
import WireContract.Wire.Envelope
import WireContract.Wire.ErrorCode
import WireContract.Wire.Form
import WireContract.Wire.Instant
import WireContract.Wire.Tagged
import WireContract.Wire.Uuid
import WireContract.Wire.Value
import WireContract.Yaml.Chars
import WireContract.Yaml.Cursor
import WireContract.Yaml.Meaning
import WireContract.Yaml.Node
import WireContract.Yaml.Read
import WireContract.Yaml.ScalarText
import WireContract.Yaml.Scan
import WireContract.Yaml.Token
import WireContract.Yaml.Write
import WireContract.Proofs.Chains
import WireContract.Proofs.DeclarationRules
import WireContract.Proofs.Orderable
import WireContract.Proofs.ModuleCycles
import WireContract.Proofs.Acceptance
import WireContract.Proofs.Boxing
import WireContract.Proofs.TypeSize
import WireContract.Proofs.JsonWhole
import WireContract.Proofs.DeclarationOrder
import WireContract.Proofs.FittingValues
import WireContract.Proofs.JsonText
import WireContract.Proofs.RoundTrip
import WireContract.Proofs.UnionRoundTrip
import WireContract.Proofs.AddedDeclarations
import WireContract.Proofs.DerivedTraits
import WireContract.Proofs.EmittedNames
import WireContract.Proofs.ImportAliases
import WireContract.Proofs.PathResolution
import WireContract.Proofs.RecordFields
import WireContract.Proofs.RecordRoundTrip
import WireContract.Proofs.ErrorEnvelopes
import WireContract.Proofs.DiskPlaces
import WireContract.Proofs.Rollback
import WireContract.Proofs.PathNames
import WireContract.Proofs.FileWriting
import WireContract.Proofs.TreeWriting
import WireContract.Proofs.StoppedWrites
import WireContract.Proofs.CycleReports
import WireContract.Proofs.TreeContents
import WireContract.Proofs.BundleExpansion
import WireContract.Proofs.Evaluation
import WireContract.Proofs.UnionMatches
import WireContract.Proofs.VisitorMethods
import WireContract.Proofs.NameCases
import WireContract.Proofs.IdentifierSpelling
import WireContract.Proofs.TokenWords
import WireContract.Proofs.EmittedWords
import WireContract.Proofs.EmissionErrors
import WireContract.Proofs.RecordKeys
import WireContract.Proofs.DocumentLayout
import WireContract.Proofs.DocumentRoundTrip
import WireContract.Proofs.AlikeDocuments
import WireContract.Proofs.OrderedTypes
import WireContract.Proofs.ClosingWalks
import WireContract.Proofs.CycleWalks
import WireContract.Proofs.AliasOutcomes
import WireContract.Proofs.Collections
import WireContract.Proofs.Representations
import WireContract.Proofs.KeyCalls
import WireContract.Proofs.NestedOptionals
import WireContract.Proofs.OptionalFields
import WireContract.Proofs.EnumTexts
import WireContract.Proofs.AliasSearch
import WireContract.Proofs.RecordParts
import WireContract.Proofs.ParameterSafety
import WireContract.Proofs.GatheredImports
import WireContract.Proofs.HolderFunctions
import WireContract.Proofs.ModuleEdges
import WireContract.Proofs.SettledImports
import WireContract.Proofs.ModuleEdits
import WireContract.Proofs.BoxedSlots
import WireContract.Proofs.ValueOrder
import WireContract.Proofs.PathReading
import WireContract.Proofs.PathReading
import WireContract.Proofs.ReadBack

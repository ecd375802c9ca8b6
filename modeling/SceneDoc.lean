import SceneDoc.Bindings.Comment
import SceneDoc.Bindings.Declaration
import SceneDoc.Bindings.Generation
import SceneDoc.Bindings.Identifier
import SceneDoc.Bindings.Records
import SceneDoc.Bindings.SourceFile
import SceneDoc.Bindings.Variants
import SceneDoc.Catalogue.Attributes
import SceneDoc.Catalogue.Extents
import SceneDoc.Catalogue.Marks
import SceneDoc.Catalogue.Materials
import SceneDoc.Catalogue.Packets
import SceneDoc.Catalogue.Positions
import SceneDoc.Catalogue.Standard
import SceneDoc.CommandLine.Commands
import SceneDoc.CommandLine.Options
import SceneDoc.CommandLine.Sample
import SceneDoc.Document.Assembly
import SceneDoc.Document.IdSource
import SceneDoc.Document.Packet
import SceneDoc.Document.Session
import SceneDoc.Json.Basic
import SceneDoc.Json.Equality
import SceneDoc.Json.Printer
import SceneDoc.Json.Reader
import SceneDoc.Json.Token
import SceneDoc.Json.Writer
import SceneDoc.Main
import SceneDoc.Number.Double
import SceneDoc.Number.Literal
import SceneDoc.Number.Shortest
import SceneDoc.Number.Style
import SceneDoc.Object.Build
import SceneDoc.Object.Colors
import SceneDoc.Object.Convert
import SceneDoc.Object.Equality
import SceneDoc.Object.Error
import SceneDoc.Object.Render
import SceneDoc.Object.Value
import SceneDoc.Output.Basic
import SceneDoc.Output.FileTree
import SceneDoc.Output.Path
import SceneDoc.Schema.Capability
import SceneDoc.Schema.Class
import SceneDoc.Schema.Compile
import SceneDoc.Schema.Definition
import SceneDoc.Schema.Error
import SceneDoc.Schema.Registry
import SceneDoc.Schema.TypeText
import SceneDoc.Schema.Vocabulary
import SceneDoc.Text.Blank
import SceneDoc.Text.Hexadecimal
import SceneDoc.Text.LetterCase
import SceneDoc.Text.Padded
import SceneDoc.Text.Split
import SceneDoc.Time.Calendar
import SceneDoc.Time.Grammar
import SceneDoc.Time.Instant
import SceneDoc.Time.Moment
import SceneDoc.Value.Color
import SceneDoc.Value.Error
import SceneDoc.Value.Samples
import SceneDoc.Value.Shape
import SceneDoc.Proofs.Attributes
import SceneDoc.Proofs.Canonical
import SceneDoc.Proofs.Compilation
import SceneDoc.Proofs.Construction
import SceneDoc.Proofs.Defaults
import SceneDoc.Proofs.DefinitionOrder
import SceneDoc.Proofs.Definitions
import SceneDoc.Proofs.Deletion
import SceneDoc.Proofs.Distinct
import SceneDoc.Proofs.Documents
import SceneDoc.Proofs.FlatRoundTrip
import SceneDoc.Proofs.FlatSamples
import SceneDoc.Proofs.GeneratedNames
import SceneDoc.Proofs.Generation
import SceneDoc.Proofs.Grammar
import SceneDoc.Proofs.Identifiers
import SceneDoc.Proofs.InputOrder
import SceneDoc.Proofs.Intervals
import SceneDoc.Proofs.JsonTrees
import SceneDoc.Proofs.Keys
import SceneDoc.Proofs.Lexemes
import SceneDoc.Proofs.Mirror
import SceneDoc.Proofs.Numerals
import SceneDoc.Proofs.Outcomes
import SceneDoc.Proofs.Packets
import SceneDoc.Proofs.Printing
import SceneDoc.Proofs.Provenance
import SceneDoc.Proofs.Reading
import SceneDoc.Proofs.Rendering
import SceneDoc.Proofs.RoundTrip
import SceneDoc.Proofs.Scanning
import SceneDoc.Proofs.Sequences
import SceneDoc.Proofs.Sessions
import SceneDoc.Proofs.Shapes
import SceneDoc.Proofs.Slots
import SceneDoc.Proofs.SourceLines
import SceneDoc.Proofs.Spellings
import SceneDoc.Proofs.UniqueKeys
import SceneDoc.Proofs.Values
import SceneDoc.Proofs.Writing
import SceneDoc.Proofs.WrittenTrees
import SceneDoc.Proofs.Rounding
import SceneDoc.Proofs.ShortestDigits
import SceneDoc.Proofs.NumberReading
import SceneDoc.Proofs.Erasure
import SceneDoc.Proofs.FlatLengths
import SceneDoc.Proofs.Comparison
import SceneDoc.Proofs.Equality
import SceneDoc.Proofs.Calendar
import SceneDoc.Proofs.CustomProperties
import SceneDoc.Proofs.InstantSpellings
import SceneDoc.Proofs.IsoInstants
import SceneDoc.Proofs.Moments
import SceneDoc.Proofs.IntervalTexts
import SceneDoc.Proofs.Splitting
import SceneDoc.Proofs.Channels
import SceneDoc.Proofs.Trimming
import SceneDoc.Proofs.Hexadecimals
import SceneDoc.Proofs.ColorTexts
import SceneDoc.Proofs.SingleFields
import SceneDoc.Proofs.ColorFields
import SceneDoc.Proofs.Colors
import SceneDoc.Proofs.ColorLists
import SceneDoc.Proofs.Links
import SceneDoc.Proofs.Characters
import SceneDoc.Proofs.Annotations
import SceneDoc.Proofs.Brackets
import SceneDoc.Proofs.SnakeCase
import SceneDoc.Proofs.ReservedWords
import SceneDoc.Proofs.Words
import SceneDoc.Proofs.Wrapping
import SceneDoc.Proofs.Comments

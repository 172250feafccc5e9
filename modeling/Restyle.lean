import Restyle.Analysis.Basic
import Restyle.Analysis.Report
import Restyle.Arguments.Basic
import Restyle.Arguments.Parse
import Restyle.Arguments.Value
import Restyle.Batch.Basic
import Restyle.Batch.Report
import Restyle.Conversion.Basic
import Restyle.Conversion.Converter
import Restyle.Conversion.Obstacle
import Restyle.Expression.Classification
import Restyle.Expression.Literal
import Restyle.Expression.Name
import Restyle.Fault
import Restyle.Files.Path
import Restyle.Files.Sources
import Restyle.Files.Tree
import Restyle.Host.Basic
import Restyle.Host.Memory
import Restyle.Json.Access
import Restyle.Json.Display
import Restyle.Json.Printer
import Restyle.Json.Reader
import Restyle.Json.Value
import Restyle.Main
import Restyle.Migration.Basic
import Restyle.Migration.Suggestion
import Restyle.Migration.Variants
import Restyle.Number.Decimal
import Restyle.Number.Double
import Restyle.Number.Numeral
import Restyle.Number.Rounding
import Restyle.Number.Shortest
import Restyle.Palette.Basic
import Restyle.Palette.Color
import Restyle.Palette.Legacy
import Restyle.Palette.Typeface
import Restyle.Pattern.Basic
import Restyle.Pattern.Declarative
import Restyle.Pattern.Header
import Restyle.Pattern.Inline
import Restyle.Pattern.Record
import Restyle.Pattern.Source
import Restyle.Pattern.Template
import Restyle.Program.Command
import Restyle.Program.Run
import Restyle.Proofs.Scan.Locality
import Restyle.Proofs.Text.Trim
import Restyle.Scan.Find
import Restyle.Scan.Frame
import Restyle.Scan.Offset
import Restyle.Scan.Region
import Restyle.Scan.Split
import Restyle.Settings
import Restyle.Tailwind
import Restyle.Text.Banner
import Restyle.Text.Blank
import Restyle.Text.Case
import Restyle.Text.Digit
import Restyle.Text.Printable
import Restyle.Text.Quoted
import Restyle.Text.Search
import Restyle.Text.Utf8
import Restyle.Text.Word
import Restyle.Theme
import Restyle.Token.Mapping
import Restyle.Token.Resolver
import Restyle.Utility.Rule
import Restyle.Utility.Scale
import Restyle.Utility.Vocabulary
import Restyle.Watch.Debounce
import Restyle.Proofs.Inline.RoundTrip
import Restyle.Proofs.Expression.Literal
import Restyle.Proofs.Scan.Split
import Restyle.Proofs.Expression.Name
import Restyle.Proofs.Text.Search
import Restyle.Proofs.Declarative.ObjectText
import Restyle.Proofs.Declarative.RoundTrip
import Restyle.Proofs.Template.Piece
import Restyle.Proofs.Dedup
import Restyle.Proofs.Template.Masked
import Restyle.Proofs.Template.Placeholder
import Restyle.Proofs.Template.RoundTrip
import Restyle.Proofs.Template.Convertible
import Restyle.Proofs.Conversion.Account
import Restyle.Proofs.Scan.Boundary
import Restyle.Proofs.Declarative.Assertion
import Restyle.Proofs.Scan.Comment
import Restyle.Proofs.Declarative.Comment
import Restyle.Proofs.SelfContained
import Restyle.Proofs.Scan.Balanced
import Restyle.Proofs.Fields
import Restyle.Proofs.Token.Configured
import Restyle.Proofs.Token.Table
import Restyle.Proofs.Token.Form
import Restyle.Proofs.Job
import Restyle.Proofs.Conversion.Theme
import Restyle.Proofs.Number.Excess
import Restyle.Proofs.Number.Numeral
import Restyle.Proofs.Scan.Sublist
import Restyle.Proofs.Returns
import Restyle.Proofs.Declarative.Readable
import Restyle.Proofs.Template.Readable
import Restyle.Proofs.Inline.Readable
import Restyle.Proofs.Absorption
import Restyle.Proofs.Conversion.Agreement
import Restyle.Proofs.Conversion.Obstacle
import Restyle.Proofs.Batch
import Restyle.Proofs.Json.Layout
import Restyle.Proofs.Tailwind
import Restyle.Proofs.Expression.Occurrence
import Restyle.Proofs.Expression.Static
import Restyle.Proofs.Expression.Contents
import Restyle.Proofs.Expression.Nameless
import Restyle.Proofs.Number.Text
import Restyle.Proofs.Text.Words
import Restyle.Proofs.Scan.Keeps
import Restyle.Proofs.Utility.Class
import Restyle.Proofs.Declarative.Kept
import Restyle.Proofs.Migration.Choice
import Restyle.Proofs.Inline.Written
import Restyle.Proofs.Conversion.Items
import Restyle.Proofs.Conversion.Tag
import Restyle.Proofs.Utility.Spacing
import Restyle.Proofs.Number.Decimal
import Restyle.Proofs.Utility.Opacity
import Restyle.Proofs.Utility.Failure
import Restyle.Proofs.Conversion.Kept
import Restyle.Proofs.Conversion.Order
import Restyle.Proofs.Location
import Restyle.Proofs.Token.Locale
import Restyle.Proofs.Files.Listing
import Restyle.Proofs.Migration.Override
import Restyle.Proofs.Template.ThemeReference
import Restyle.Proofs.Template.TypeArguments
import Restyle.Proofs.Migration.VariantText
import Restyle.Proofs.Watch.Debounce
import Restyle.Proofs.Definition
import Restyle.Proofs.Inline.Names
import Restyle.Proofs.Json.Showable
import Restyle.Proofs.Settings
import Restyle.Proofs.Scan.Concatenation
import Restyle.Proofs.Scan.Interpolation
import Restyle.Proofs.Template.Masking
import Restyle.Proofs.Scan.Progress
import Restyle.Proofs.Progress

import Ambient.Build.Assignment
import Ambient.Build.Basic
import Ambient.Build.Function
import Ambient.Build.Run
import Ambient.Build.Statement
import Ambient.Build.Value
import Ambient.Cli.Entry
import Ambient.Cli.Path
import Ambient.Cli.Report
import Ambient.Cli.Run
import Ambient.Cli.Usage
import Ambient.Cli.Words
import Ambient.Decl.Basic
import Ambient.Decl.Value
import Ambient.Doc.Comment
import Ambient.Doc.Tag
import Ambient.Failure
import Ambient.Json.Basic
import Ambient.Json.Printer
import Ambient.Json.Reader
import Ambient.Main
import Ambient.Module
import Ambient.Notice
import Ambient.Proofs.Occurrence
import Ambient.Proofs.Render.Unbroken
import Ambient.Proofs.Text.Opening
import Ambient.Proofs.Text.Row
import Ambient.Proofs.Validation.Recognition
import Ambient.Render.Decl
import Ambient.Render.Module
import Ambient.Render.Style
import Ambient.Render.Type
import Ambient.Schema.Check
import Ambient.Schema.Decl
import Ambient.Settings.Basic
import Ambient.Settings.EnvFile
import Ambient.Settings.Load
import Ambient.Source.Cursor
import Ambient.Source.Element
import Ambient.Source.Expression
import Ambient.Source.Gap
import Ambient.Source.Grammar
import Ambient.Source.Kind
import Ambient.Source.Node
import Ambient.Source.Operator
import Ambient.Source.Pattern
import Ambient.Source.Program
import Ambient.Source.Statement
import Ambient.Source.Token
import Ambient.Source.Tour
import Ambient.Table
import Ambient.Text.Blank
import Ambient.Text.Colour
import Ambient.Text.Cut
import Ambient.Text.Digit
import Ambient.Text.Likeness
import Ambient.Text.Lower
import Ambient.Text.Line
import Ambient.Text.Printable
import Ambient.Text.Quoted
import Ambient.Text.Range
import Ambient.Text.Word
import Ambient.Trail
import Ambient.TypeExpr.Basic
import Ambient.TypeExpr.Reader
import Ambient.TypeRef
import Ambient.Validation
import Ambient.Proofs.Render.Export
import Ambient.Proofs.Build.Act
import Ambient.Proofs.Build.Path
import Ambient.Proofs.Build.Trace
import Ambient.Proofs.Build.Reading
import Ambient.Proofs.Module
import Ambient.Proofs.Build.Replay
import Ambient.Proofs.Build.Chain
import Ambient.Proofs.Build.Slot
import Ambient.Proofs.Build.Binding
import Ambient.Proofs.Build.Establish
import Ambient.Proofs.Build.Kept
import Ambient.Proofs.Build.Registration
import Ambient.Proofs.TypeExpr.Acceptance
import Ambient.Proofs.Build.Mode
import Ambient.Proofs.Build.Pass
import Ambient.Proofs.Build.Lockstep
import Ambient.Proofs.Build.InPlace
import Ambient.Proofs.Validation.Order
import Ambient.Proofs.Build.Marker
import Ambient.Proofs.Position
import Ambient.Proofs.Validation.Downgrade
import Ambient.Proofs.Validation.Account
import Ambient.Proofs.Validation.Resolution
import Ambient.Proofs.Text.Trim
import Ambient.Proofs.Render.Readback
import Ambient.Proofs.Doc.Entry
import Ambient.Proofs.Doc.Layout
import Ambient.Proofs.Source.Legible
import Ambient.Proofs.Source.Yield
import Ambient.Proofs.Source.Construct
import Ambient.Proofs.Source.Expression
import Ambient.Proofs.Source.Statement
import Ambient.Proofs.Doc.Named
import Ambient.Proofs.Shape
import Ambient.Proofs.Build.Shaped
import Ambient.Proofs.Build.ShapedPass
import Ambient.Proofs.Source.Likeness
import Ambient.Proofs.Build.ExportPass
import Ambient.Proofs.Build.Beside
import Ambient.Proofs.Doc.Mention
import Ambient.Proofs.Build.Typedef
import Ambient.Proofs.Render.Block
import Ambient.Proofs.Render.Cosmetic
import Ambient.Proofs.Render.Warning
import Ambient.Proofs.Doc.Enclosed
import Ambient.Proofs.Build.Insertion
import Ambient.Proofs.Source.Take
import Ambient.Proofs.Source.Spelling
import Ambient.Proofs.Source.Reference
import Ambient.Proofs.Source.Single
import Ambient.Proofs.Build.Import
import Ambient.Proofs.Validation.Projection
import Ambient.Proofs.Validation.Monotone
import Ambient.Proofs.Build.Prototype
import Ambient.Proofs.Build.Member
import Ambient.Proofs.Build.Accessor
import Ambient.Proofs.TypeExpr.Obstacle
import Ambient.Proofs.Build.Naming
import Ambient.Proofs.Build.Return
import Ambient.Proofs.Build.Signature
import Ambient.Proofs.Doc.Ruled
import Ambient.Proofs.Doc.Reprint
import Ambient.Proofs.Json.Quoted
import Ambient.Proofs.Render.MemberName
import Ambient.Proofs.Source.Literal
import Ambient.Proofs.Build.Gutter
import Ambient.Proofs.Build.Literal
import Ambient.Proofs.Doc.Bracket
import Ambient.Proofs.Build.Search
import Ambient.Proofs.Walk
import Ambient.Proofs.Build.Call
import Ambient.Proofs.Build.Report
import Ambient.Proofs.Build.Site
import Ambient.Proofs.Build.Sited
import Ambient.Proofs.Build.Anchor

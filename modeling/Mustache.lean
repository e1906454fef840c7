import Mustache.Command.Arguments
import Mustache.Command.Failure
import Mustache.Command.Files
import Mustache.Command.Flag
import Mustache.Command.Program
import Mustache.Error
import Mustache.Fields
import Mustache.Json.Basic
import Mustache.Json.Fault
import Mustache.Json.Lexeme
import Mustache.Json.Reader
import Mustache.Main
import Mustache.Number.Binary64
import Mustache.Number.Shortest
import Mustache.Proofs.Command.BadInput
import Mustache.Proofs.Command.FileNames
import Mustache.Proofs.Command.Gathering
import Mustache.Proofs.Command.Partials
import Mustache.Proofs.Command.Report
import Mustache.Proofs.Command.Surrogate
import Mustache.Proofs.Command.Writing
import Mustache.Proofs.Json.Escape
import Mustache.Proofs.Json.Proper
import Mustache.Proofs.Json.Reader
import Mustache.Proofs.Outcome
import Mustache.Proofs.Render.Comment
import Mustache.Proofs.Render.Complement
import Mustache.Proofs.Render.Concat
import Mustache.Proofs.Render.Data
import Mustache.Proofs.Render.Depth
import Mustache.Proofs.Render.Escape
import Mustache.Proofs.Render.Expansion
import Mustache.Proofs.Render.Faults
import Mustache.Proofs.Render.LineEnding
import Mustache.Proofs.Render.NestedMargin
import Mustache.Proofs.Render.Repetition
import Mustache.Proofs.Render.Shadowing
import Mustache.Proofs.Render.Simulation
import Mustache.Proofs.Render.Stack
import Mustache.Proofs.Render.Termination
import Mustache.Proofs.Render.Visibility
import Mustache.Proofs.Template.Build
import Mustache.Proofs.Template.Conservation
import Mustache.Proofs.Template.EarlierLine
import Mustache.Proofs.Template.Flatten
import Mustache.Proofs.Template.Indentation
import Mustache.Proofs.Template.Inline
import Mustache.Proofs.Template.Layout
import Mustache.Proofs.Template.LineEnding
import Mustache.Proofs.Template.Margin
import Mustache.Proofs.Template.Markers
import Mustache.Proofs.Template.Matcher
import Mustache.Proofs.Template.Origin
import Mustache.Proofs.Template.Parallel
import Mustache.Proofs.Template.Passage
import Mustache.Proofs.Template.Progress
import Mustache.Proofs.Template.SourceLine
import Mustache.Proofs.Template.Tag
import Mustache.Proofs.Template.Trimming
import Mustache.Proofs.Template.Triple
import Mustache.Proofs.Text.Backslash
import Mustache.Proofs.Text.Indentation
import Mustache.Proofs.Text.Layout
import Mustache.Proofs.Text.LineEnding
import Mustache.Proofs.Text.Lines
import Mustache.Proofs.Text.Marker
import Mustache.Proofs.Text.Markup
import Mustache.Proofs.Text.Parts
import Mustache.Proofs.Text.Surrogate
import Mustache.Proofs.Value.Equality
import Mustache.Proofs.Value.Equivalence
import Mustache.Proofs.Value.Hash
import Mustache.Proofs.Value.Lookup
import Mustache.Proofs.Value.OfJson
import Mustache.Proofs.Value.Path
import Mustache.Proofs.Value.Printer
import Mustache.Proofs.Value.Texts
import Mustache.Render.Renderer
import Mustache.Render.Scope
import Mustache.Run
import Mustache.Session
import Mustache.Template.Build
import Mustache.Template.Delimiter
import Mustache.Template.Node
import Mustache.Template.Scan
import Mustache.Template.Tag
import Mustache.Template.Token
import Mustache.Text.Backslash
import Mustache.Text.Basic
import Mustache.Text.Blank
import Mustache.Text.DecimalDigit
import Mustache.Text.Integer
import Mustache.Text.Line
import Mustache.Text.Markup
import Mustache.Text.Numeral
import Mustache.Text.Printable
import Mustache.Text.Quoted
import Mustache.Text.Surrogate
import Mustache.Text.Utf8
import Mustache.Traced
import Mustache.Value.Basic
import Mustache.Value.Equality
import Mustache.Value.Hash
import Mustache.Value.Lookup
import Mustache.Value.OfJson
import Mustache.Value.Printer

import TagTables.Span
import TagTables.Text.Blank
import TagTables.Text.Hidden
import TagTables.Text.Quoted
import TagTables.Text.Pieces
import TagTables.Token
import TagTables.Token.Lexer
import TagTables.TagSet
import TagTables.Position
import TagTables.SyntaxError
import TagTables.Event
import TagTables.SetStream
import TagTables.Report
import TagTables.Emit.Style
import TagTables.Emit.Layout
import TagTables.Emit.Literal
import TagTables.Emit.Section
import TagTables.Sink
import TagTables.Artifacts.Draft
import TagTables.Artifacts
import TagTables.Path
import TagTables.OsError
import TagTables.Build
import TagTables.Invocation
import TagTables.Host
import TagTables.Host.Tree
import TagTables.Host.Memory
import TagTables.Action
import TagTables.Main
import TagTables.Proofs.Answers
import TagTables.Proofs.Streaming
import TagTables.Proofs.Repeats
import TagTables.Proofs.Grammar
import TagTables.Proofs.Splitting
import TagTables.Proofs.Reader
import TagTables.Proofs.Verdicts
import TagTables.Proofs.ByteOrder
import TagTables.Proofs.Lookup
import TagTables.Proofs.Literals
import TagTables.Proofs.Sections
import TagTables.Proofs.Tables
import TagTables.Proofs.Writes
import TagTables.Proofs.Effects
import TagTables.Proofs.Symbols
import TagTables.Proofs.Lexing
import TagTables.Proofs.Tiling
import TagTables.Proofs.Accounting
import TagTables.Proofs.Faults
import TagTables.Proofs.Delivery
import TagTables.Proofs.Printing
import TagTables.Proofs.InStep
import TagTables.Proofs.Places
import TagTables.Proofs.Indifference
import TagTables.Proofs.Reordering
import TagTables.Proofs.Composition
import TagTables.Proofs.Auxiliary
import TagTables.Proofs.Duplicates
import TagTables.Proofs.Faithful
import TagTables.Proofs.Extents
import TagTables.Proofs.Rendering
import TagTables.Proofs.Segments
import TagTables.Proofs.Truncation
import TagTables.Proofs.Scripts
import TagTables.Proofs.Positions
import TagTables.Proofs.BuildDirectory
import TagTables.Proofs.DefaultAction
import TagTables.Proofs.SearchPath
import TagTables.Proofs.Nesting

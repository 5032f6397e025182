import Scriptlet.Command.Arguments
import Scriptlet.Command.Run
import Scriptlet.Cursor
import Scriptlet.Error.Cause
import Scriptlet.Error.Diagnostic
import Scriptlet.Error.SyntaxError
import Scriptlet.Files.Access
import Scriptlet.Files.Store
import Scriptlet.Json
import Scriptlet.Location
import Scriptlet.Main
import Scriptlet.Number.Binary64
import Scriptlet.Number.Numeral
import Scriptlet.Parse.Chain
import Scriptlet.Parse.Group
import Scriptlet.Parse.Level
import Scriptlet.Parse.Nesting
import Scriptlet.Parse.Object
import Scriptlet.Parse.Program
import Scriptlet.Parse.Repeat
import Scriptlet.Parse.State
import Scriptlet.Parse.Statement
import Scriptlet.Proofs.Agreement
import Scriptlet.Proofs.Anchors
import Scriptlet.Proofs.Announcing
import Scriptlet.Proofs.Appending
import Scriptlet.Proofs.Bound
import Scriptlet.Proofs.Buffer
import Scriptlet.Proofs.Checking
import Scriptlet.Proofs.Completeness
import Scriptlet.Proofs.Concatenation
import Scriptlet.Proofs.Consumption
import Scriptlet.Proofs.Declarations
import Scriptlet.Proofs.Defaults
import Scriptlet.Proofs.Depth
import Scriptlet.Proofs.Dump
import Scriptlet.Proofs.Elements
import Scriptlet.Proofs.Enclosing
import Scriptlet.Proofs.EntryPoints
import Scriptlet.Proofs.Exactness
import Scriptlet.Proofs.Failures
import Scriptlet.Proofs.Files
import Scriptlet.Proofs.Following
import Scriptlet.Proofs.Grammar
import Scriptlet.Proofs.Isolation
import Scriptlet.Proofs.JsonText
import Scriptlet.Proofs.Layout
import Scriptlet.Proofs.Lexemes
import Scriptlet.Proofs.Likeness
import Scriptlet.Proofs.Locality
import Scriptlet.Proofs.Locations
import Scriptlet.Proofs.Machine
import Scriptlet.Proofs.Matching
import Scriptlet.Proofs.Nesting
import Scriptlet.Proofs.Numbers
import Scriptlet.Proofs.OpenStatements
import Scriptlet.Proofs.Outcomes
import Scriptlet.Proofs.Places
import Scriptlet.Proofs.PrefixCode
import Scriptlet.Proofs.Proceeding
import Scriptlet.Proofs.Reading
import Scriptlet.Proofs.Rebinding
import Scriptlet.Proofs.Reinterpretation
import Scriptlet.Proofs.Relocation
import Scriptlet.Proofs.Rendering
import Scriptlet.Proofs.Repetition
import Scriptlet.Proofs.Reports
import Scriptlet.Proofs.Safety
import Scriptlet.Proofs.Scanning
import Scriptlet.Proofs.Shifting
import Scriptlet.Proofs.Simulation
import Scriptlet.Proofs.Soundness
import Scriptlet.Proofs.Sources
import Scriptlet.Proofs.Splitting
import Scriptlet.Proofs.States
import Scriptlet.Proofs.Steps
import Scriptlet.Proofs.Tracing
import Scriptlet.Proofs.Verdicts
import Scriptlet.Proofs.Words
import Scriptlet.Proofs.Wrapping
import Scriptlet.Proofs.Writing
import Scriptlet.Span
import Scriptlet.Text.Blank
import Scriptlet.Text.Excerpt
import Scriptlet.Token.Kind
import Scriptlet.Token.Scan
import Scriptlet.Token.Spelling
import Scriptlet.Trace
import Scriptlet.Tree.Basic
import Scriptlet.Tree.Json
import Scriptlet.Tree.Rebind

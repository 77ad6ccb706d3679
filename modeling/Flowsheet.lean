import Flowsheet.Api.Basic
import Flowsheet.Api.Response
import Flowsheet.Api.Route
import Flowsheet.Command.Flag
import Flowsheet.Command.Line
import Flowsheet.Command.Listing
import Flowsheet.Command.Run
import Flowsheet.Compiler.Artifact
import Flowsheet.Compiler.Basic
import Flowsheet.Decimal.Basic
import Flowsheet.Decimal.Binary64
import Flowsheet.Decimal.Layout
import Flowsheet.Decimal.Reader
import Flowsheet.Decimal.Shortest
import Flowsheet.Digest
import Flowsheet.Document.Basic
import Flowsheet.Document.Load
import Flowsheet.Document.Schema
import Flowsheet.Election.Basic
import Flowsheet.Election.Rebuild
import Flowsheet.Failure
import Flowsheet.Files.Basic
import Flowsheet.Files.Discovery
import Flowsheet.Formula.Basic
import Flowsheet.Formula.Canonical
import Flowsheet.Formula.Eval
import Flowsheet.Formula.Parser
import Flowsheet.Formula.Printer
import Flowsheet.Formula.Token
import Flowsheet.Industry.Basic
import Flowsheet.Industry.Check
import Flowsheet.Industry.Dot
import Flowsheet.Industry.Evaluate
import Flowsheet.Industry.Graph
import Flowsheet.Industry.MetaProcess
import Flowsheet.Industry.Operation
import Flowsheet.Industry.Process
import Flowsheet.Industry.Verify
import Flowsheet.Json.Basic
import Flowsheet.Json.Bytes
import Flowsheet.Json.Parser
import Flowsheet.Json.Record
import Flowsheet.Lookup
import Flowsheet.Main
import Flowsheet.Metrics.Basic
import Flowsheet.Metrics.Text
import Flowsheet.Path
import Flowsheet.Proofs.Api.Confinement
import Flowsheet.Proofs.Cache
import Flowsheet.Proofs.Command.Listing
import Flowsheet.Proofs.Compiler.Batch
import Flowsheet.Proofs.Compiler.Causes
import Flowsheet.Proofs.Compiler.Digest
import Flowsheet.Proofs.Compiler.Interleaving
import Flowsheet.Proofs.Compiler.Replacing
import Flowsheet.Proofs.Compiler.Shared
import Flowsheet.Proofs.Compiler.Writing
import Flowsheet.Proofs.Decimal.Binary64
import Flowsheet.Proofs.Decimal.Cell
import Flowsheet.Proofs.Decimal.Text
import Flowsheet.Proofs.Document.Identified
import Flowsheet.Proofs.Document.Identifier
import Flowsheet.Proofs.Document.Names
import Flowsheet.Proofs.Election.Commands
import Flowsheet.Proofs.Election.Leadership
import Flowsheet.Proofs.Election.Race
import Flowsheet.Proofs.Election.Rebuild
import Flowsheet.Proofs.Election.Waiting
import Flowsheet.Proofs.Evaluation.Arguments
import Flowsheet.Proofs.Evaluation.Golden
import Flowsheet.Proofs.Evaluation.Provenance
import Flowsheet.Proofs.Evaluation.Steps
import Flowsheet.Proofs.Files
import Flowsheet.Proofs.FirstOccurrence
import Flowsheet.Proofs.Formula.Canonical
import Flowsheet.Proofs.Formula.Cursor
import Flowsheet.Proofs.Formula.DecimalText
import Flowsheet.Proofs.Formula.Grammar
import Flowsheet.Proofs.Formula.Language
import Flowsheet.Proofs.Formula.NormalForm
import Flowsheet.Proofs.Formula.Renaming
import Flowsheet.Proofs.Formula.RoundTrip
import Flowsheet.Proofs.Formula.Spelling
import Flowsheet.Proofs.Formula.Substitution
import Flowsheet.Proofs.Formula.Termination
import Flowsheet.Proofs.Formula.Value
import Flowsheet.Proofs.Industry.Acceptance
import Flowsheet.Proofs.Industry.Acyclic
import Flowsheet.Proofs.Industry.Agenda
import Flowsheet.Proofs.Industry.Built
import Flowsheet.Proofs.Industry.Consistency
import Flowsheet.Proofs.Industry.Distinct
import Flowsheet.Proofs.Industry.Levels
import Flowsheet.Proofs.Industry.Neighbours
import Flowsheet.Proofs.Industry.Order
import Flowsheet.Proofs.Industry.Queue
import Flowsheet.Proofs.Industry.Reading
import Flowsheet.Proofs.Industry.Registration
import Flowsheet.Proofs.Industry.Registry
import Flowsheet.Proofs.Json.Text
import Flowsheet.Proofs.Path
import Flowsheet.Proofs.Record.Fields
import Flowsheet.Proofs.Script.Agreement
import Flowsheet.Proofs.Script.Assignments
import Flowsheet.Proofs.Script.Callees
import Flowsheet.Proofs.Script.Constants
import Flowsheet.Proofs.Script.Exposed
import Flowsheet.Proofs.Script.Lines
import Flowsheet.Proofs.Script.Reading
import Flowsheet.Proofs.Script.Rendering
import Flowsheet.Proofs.Script.Run
import Flowsheet.Proofs.Script.Simulation
import Flowsheet.Proofs.Script.SingleDefinition
import Flowsheet.Proofs.Store
import Flowsheet.Proofs.Task.Lifecycle
import Flowsheet.Proofs.Task.Payload
import Flowsheet.Proofs.Task.Retry
import Flowsheet.Proofs.Task.RoundTrip
import Flowsheet.Proofs.Template.Commands
import Flowsheet.Proofs.Template.Filling
import Flowsheet.Proofs.Template.Reading
import Flowsheet.Proofs.Template.Tokens
import Flowsheet.Proofs.Text.Digits
import Flowsheet.Proofs.Text.Order
import Flowsheet.Proofs.Text.Utf8
import Flowsheet.Proofs.Time.Instant
import Flowsheet.Proofs.Yaml.Keys
import Flowsheet.Proofs.Yaml.Members
import Flowsheet.Quantity
import Flowsheet.Record.Basic
import Flowsheet.Record.Decode
import Flowsheet.Record.Range
import Flowsheet.Record.Validate
import Flowsheet.Script.Basic
import Flowsheet.Script.Statement
import Flowsheet.Settings.Api
import Flowsheet.Settings.Compiler
import Flowsheet.Settings.Load
import Flowsheet.Settings.Scheduler
import Flowsheet.Settings.Source
import Flowsheet.Settings.Store
import Flowsheet.Settings.Worker
import Flowsheet.Store.Address
import Flowsheet.Store.Basic
import Flowsheet.Store.Cache
import Flowsheet.Task.Basic
import Flowsheet.Task.Handler
import Flowsheet.Task.Queue
import Flowsheet.Task.Raw
import Flowsheet.Template.Basic
import Flowsheet.Template.Datum
import Flowsheet.Template.Default
import Flowsheet.Template.Format
import Flowsheet.Template.Function
import Flowsheet.Template.Load
import Flowsheet.Template.Placeholder
import Flowsheet.Template.Render
import Flowsheet.Template.Set
import Flowsheet.Template.Token
import Flowsheet.Template.Tree
import Flowsheet.Text.Blank
import Flowsheet.Text.Case
import Flowsheet.Text.Order
import Flowsheet.Text.Printable
import Flowsheet.Text.Quoted
import Flowsheet.Text.Utf8
import Flowsheet.Time.Cron
import Flowsheet.Time.Duration
import Flowsheet.Time.Instant
import Flowsheet.Time.Zone
import Flowsheet.Url
import Flowsheet.Word
import Flowsheet.Yaml.Atom
import Flowsheet.Yaml.Decoder
import Flowsheet.Yaml.Fields
import Flowsheet.Yaml.Lexer
import Flowsheet.Yaml.Node
import Flowsheet.Yaml.Scalar
import Flowsheet.Yaml.Source
import Flowsheet.Yaml.Timestamp
import Flowsheet.Yaml.Token
import Flowsheet.Yaml.Value

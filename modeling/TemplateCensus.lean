import TemplateCensus.Analysis.Emit
import TemplateCensus.Analysis.Files
import TemplateCensus.Analysis.Plan
import TemplateCensus.Analysis.Setup
import TemplateCensus.Census.HeaderTable
import TemplateCensus.Census.Instantiation
import TemplateCensus.Census.Registry
import TemplateCensus.Census.Report
import TemplateCensus.Command.Database
import TemplateCensus.Command.Entry
import TemplateCensus.Command.Load
import TemplateCensus.Command.Words
import TemplateCensus.CommandLine.Action
import TemplateCensus.CommandLine.Completion
import TemplateCensus.CommandLine.Flags
import TemplateCensus.CommandLine.Help
import TemplateCensus.CommandLine.Program
import TemplateCensus.CommandLine.Script
import TemplateCensus.Dump.Cursor
import TemplateCensus.Dump.Decode
import TemplateCensus.Dump.Lookup
import TemplateCensus.Dump.Node
import TemplateCensus.Dump.Specialization
import TemplateCensus.Dump.Survey
import TemplateCensus.Dump.Unit
import TemplateCensus.Invocation
import TemplateCensus.Json.Field
import TemplateCensus.Json.Parser
import TemplateCensus.Json.Printer
import TemplateCensus.Json.Value
import TemplateCensus.Keyed
import TemplateCensus.Main
import TemplateCensus.Path
import TemplateCensus.Settings.Basic
import TemplateCensus.Settings.Dotenv
import TemplateCensus.Settings.Expansion
import TemplateCensus.Settings.Format
import TemplateCensus.Settings.FromJson
import TemplateCensus.Settings.FromToml
import TemplateCensus.Settings.Load
import TemplateCensus.Source.Declaration
import TemplateCensus.Source.Location
import TemplateCensus.Spelling.Arguments
import TemplateCensus.Spelling.Bare
import TemplateCensus.Spelling.Normal
import TemplateCensus.Spelling.Scope
import TemplateCensus.Text.Blank
import TemplateCensus.Text.Decimal
import TemplateCensus.Text.Integer
import TemplateCensus.Text.Pieces
import TemplateCensus.Text.Printable
import TemplateCensus.Text.Quoted
import TemplateCensus.Toml.Document
import TemplateCensus.Toml.Edition
import TemplateCensus.Toml.Marks
import TemplateCensus.Toml.Numbers
import TemplateCensus.Toml.Strings
import TemplateCensus.Toml.Table
import TemplateCensus.UnitCache
import TemplateCensus.World.Basic
import TemplateCensus.World.FileSystem
import TemplateCensus.World.Frontend
import TemplateCensus.Proofs.Keyed
import TemplateCensus.Proofs.Text.Blank
import TemplateCensus.Proofs.Text.ByteOrder
import TemplateCensus.Proofs.Source.Location
import TemplateCensus.Proofs.Spelling.Normal
import TemplateCensus.Proofs.Spelling.Bare
import TemplateCensus.Proofs.Spelling.Scope
import TemplateCensus.Proofs.Spelling.Arguments
import TemplateCensus.Proofs.Census.Acceptance
import TemplateCensus.Proofs.Census.Memory
import TemplateCensus.Proofs.Dump.DocumentOrder
import TemplateCensus.Proofs.Dump.Omission
import TemplateCensus.Proofs.Dump.Origin
import TemplateCensus.Proofs.Dump.Discovery
import TemplateCensus.Proofs.Dump.Tables
import TemplateCensus.Proofs.Dump.Arguments
import TemplateCensus.Proofs.Dump.Pattern
import TemplateCensus.Proofs.Dump.Namesakes
import TemplateCensus.Proofs.Dump.Exchange
import TemplateCensus.Proofs.Dump.Ties
import TemplateCensus.Proofs.UnitCache
import TemplateCensus.Proofs.Flights
import TemplateCensus.Proofs.Analysis.Emit
import TemplateCensus.Proofs.Path
import TemplateCensus.Proofs.Analysis.Order
import TemplateCensus.Proofs.Spelling.NameWords
import TemplateCensus.Proofs.Spelling.Qualifiers
import TemplateCensus.Proofs.Spelling.Variants
import TemplateCensus.Proofs.Spelling.QualifiedNames
import TemplateCensus.Proofs.Spelling.ArgumentLists
import TemplateCensus.Proofs.Dump.Packs
import TemplateCensus.Proofs.Dump.Calls
import TemplateCensus.Proofs.Dump.Declarations
import TemplateCensus.Proofs.Dump.Addresses
import TemplateCensus.Proofs.Json.Value
import TemplateCensus.Proofs.Census.PublicHeaders
import TemplateCensus.Proofs.Census.Renderings
import TemplateCensus.Proofs.Dump.Values
import TemplateCensus.Proofs.Spelling.Slices
import TemplateCensus.Proofs.Dump.Accesses
import TemplateCensus.Proofs.Dump.Gaps
import TemplateCensus.Proofs.CleanPath
import TemplateCensus.Proofs.Command.Flags
import TemplateCensus.Proofs.Command.Quoting
import TemplateCensus.Proofs.Analysis.Lookup
import TemplateCensus.Proofs.Recency
import TemplateCensus.Proofs.InvocationKey
import TemplateCensus.Proofs.Dump.Preference
import TemplateCensus.Proofs.Dump.Memo

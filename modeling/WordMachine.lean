import WordMachine.AddressMap
import WordMachine.Assembly.Assemble
import WordMachine.Assembly.Error
import WordMachine.Assembly.Line
import WordMachine.Assembly.Literal
import WordMachine.Assembly.Token
import WordMachine.Cbor.Decode
import WordMachine.Cbor.Item
import WordMachine.Command.Assembler
import WordMachine.Command.Basic
import WordMachine.Command.Runner
import WordMachine.Debugger.Basic
import WordMachine.Debugger.Event
import WordMachine.Debugger.Listing
import WordMachine.Debugger.Run
import WordMachine.Devices
import WordMachine.Files
import WordMachine.Instruction
import WordMachine.Location
import WordMachine.Log
import WordMachine.Machine.Basic
import WordMachine.Machine.Image
import WordMachine.Machine.Snapshot
import WordMachine.Main
import WordMachine.Path
import WordMachine.Session.Basic
import WordMachine.Session.Change
import WordMachine.Session.Inspect
import WordMachine.Session.Prompt
import WordMachine.Session.Triggers
import WordMachine.Settings
import WordMachine.SymbolTable
import WordMachine.Text.Bytes
import WordMachine.Text.Cells
import WordMachine.Text.ControlSequence
import WordMachine.Text.Grapheme.Cluster
import WordMachine.Text.Grapheme.Kind
import WordMachine.Text.Numeral
import WordMachine.Text.Printable
import WordMachine.Text.Quoted
import WordMachine.Text.Utf8
import WordMachine.Toml.Document
import WordMachine.Toml.Reader
import WordMachine.Toml.Scalar
import WordMachine.Word
import WordMachine.Proofs.Assembly.Agreement
import WordMachine.Proofs.Assembly.Blame
import WordMachine.Proofs.Assembly.Course
import WordMachine.Proofs.Assembly.Cursors
import WordMachine.Proofs.Assembly.Drafting
import WordMachine.Proofs.Assembly.Emission
import WordMachine.Proofs.Assembly.Grammar
import WordMachine.Proofs.Assembly.Labels
import WordMachine.Proofs.Assembly.Layout
import WordMachine.Proofs.Assembly.Lexing
import WordMachine.Proofs.Assembly.LineStarts
import WordMachine.Proofs.Assembly.Operands
import WordMachine.Proofs.Assembly.Overlap
import WordMachine.Proofs.Assembly.Parsing
import WordMachine.Proofs.Assembly.Printing
import WordMachine.Proofs.Assembly.Reassembly
import WordMachine.Proofs.Assembly.Repetition
import WordMachine.Proofs.Assembly.Resolved
import WordMachine.Proofs.Assembly.Restyled
import WordMachine.Proofs.Assembly.Restyling
import WordMachine.Proofs.Assembly.Scanning
import WordMachine.Proofs.Cbor.Canonical
import WordMachine.Proofs.Command.Artefacts
import WordMachine.Proofs.Command.Underlining
import WordMachine.Proofs.Debugger.Edit
import WordMachine.Proofs.Debugger.FirstStop
import WordMachine.Proofs.Debugger.Listing
import WordMachine.Proofs.Debugger.Loading
import WordMachine.Proofs.Debugger.Operation
import WordMachine.Proofs.Debugger.Orderly
import WordMachine.Proofs.Debugger.Sniffing
import WordMachine.Proofs.Debugger.Splitting
import WordMachine.Proofs.Debugger.Strings
import WordMachine.Proofs.Debugger.Tracing
import WordMachine.Proofs.Debugger.Triggers
import WordMachine.Proofs.Debugger.Visits
import WordMachine.Proofs.Debugger.WellFormed
import WordMachine.Proofs.InPlace.Basic
import WordMachine.Proofs.InPlace.Decoding
import WordMachine.Proofs.InPlace.Load
import WordMachine.Proofs.InPlace.Step
import WordMachine.Proofs.Location
import WordMachine.Proofs.Location.Spelled
import WordMachine.Proofs.Machine.Calls
import WordMachine.Proofs.Machine.Decoding
import WordMachine.Proofs.Machine.Effects
import WordMachine.Proofs.Machine.Images
import WordMachine.Proofs.Machine.Intake
import WordMachine.Proofs.Machine.Interference
import WordMachine.Proofs.Machine.Loading
import WordMachine.Proofs.Machine.Outputs
import WordMachine.Proofs.Machine.Run
import WordMachine.Proofs.Machine.SaveRestore
import WordMachine.Proofs.Machine.SnapshotForm
import WordMachine.Proofs.Machine.Step
import WordMachine.Proofs.Machine.WellFormed
import WordMachine.Proofs.Modular.Decoding
import WordMachine.Proofs.Modular.Execution
import WordMachine.Proofs.Modular.Machine
import WordMachine.Proofs.Modular.Refinement
import WordMachine.Proofs.Session.Excerpts
import WordMachine.Proofs.Session.Frame
import WordMachine.Proofs.Session.Intake
import WordMachine.Proofs.Session.Places
import WordMachine.Proofs.Session.SourceLines
import WordMachine.Proofs.Session.Unattended
import WordMachine.Proofs.Settings.Installed
import WordMachine.Proofs.Success
import WordMachine.Proofs.SymbolTable.Stored
import WordMachine.Proofs.Text.Characters
import WordMachine.Proofs.Text.Decimal
import WordMachine.Proofs.Text.Spelled

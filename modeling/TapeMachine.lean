import TapeMachine.Text.Utf8
import TapeMachine.Text.Decimal
import TapeMachine.Text.Printable
import TapeMachine.Text.Quoted
import TapeMachine.Report
import TapeMachine.Stream.Fault
import TapeMachine.Stream.Source
import TapeMachine.Stream.Sink
import TapeMachine.Files
import TapeMachine.Tape
import TapeMachine.Buffer
import TapeMachine.Instruction
import TapeMachine.Brackets
import TapeMachine.Machine.Basic
import TapeMachine.Machine.Run
import TapeMachine.Samples
import TapeMachine.Listing
import TapeMachine.Assembly
import TapeMachine.Dump
import TapeMachine.Image
import TapeMachine.Cbor.Head
import TapeMachine.Cbor.Item
import TapeMachine.Cbor.Conversion
import TapeMachine.Image.Codec
import TapeMachine.Zstandard
import TapeMachine.Image.Storage
import TapeMachine.Log
import TapeMachine.Feed.Framing
import TapeMachine.Feed.Token
import TapeMachine.Feed.Journal
import TapeMachine.Feed.Loop
import TapeMachine.Toml.Scalar
import TapeMachine.Toml.Text
import TapeMachine.Toml.Statement
import TapeMachine.Toml.Table
import TapeMachine.Toml.Document
import TapeMachine.Settings
import TapeMachine.Settings.File
import TapeMachine.Command.Flag
import TapeMachine.Command.Options
import TapeMachine.Command.Session
import TapeMachine.Command.Invocation
import TapeMachine.Main
import TapeMachine.Proofs.Queue
import TapeMachine.Proofs.Ideal
import TapeMachine.Proofs.Execution
import TapeMachine.Proofs.Calls
import TapeMachine.Proofs.Requests
import TapeMachine.Proofs.Matching
import TapeMachine.Proofs.Restoring
import TapeMachine.Proofs.Consistency
import TapeMachine.Proofs.Representation
import TapeMachine.Proofs.Feeding
import TapeMachine.Proofs.Block
import TapeMachine.Proofs.Structured
import TapeMachine.Proofs.Schedule
import TapeMachine.Proofs.Codec
import TapeMachine.Proofs.Alike
import TapeMachine.Proofs.Snapshot
import TapeMachine.Proofs.Restorable
import TapeMachine.Proofs.Encoding
import TapeMachine.Proofs.Turns
import TapeMachine.Proofs.Resuming
import TapeMachine.Proofs.Erasure
import TapeMachine.Proofs.Fifo
import TapeMachine.Proofs.Stepping
import TapeMachine.Proofs.Stripping
import TapeMachine.Proofs.Comments
import TapeMachine.Proofs.Balance
import TapeMachine.Proofs.Linking
import TapeMachine.Proofs.Mismatches
import TapeMachine.Proofs.Focus
import TapeMachine.Proofs.Sorting
import TapeMachine.Proofs.Tracing
import TapeMachine.Proofs.Locality
import TapeMachine.Proofs.Truncation
import TapeMachine.Proofs.InPlace
import TapeMachine.Proofs.Visits
import TapeMachine.Proofs.Attempts
import TapeMachine.Proofs.Copying
import TapeMachine.Proofs.Cutoff
import TapeMachine.Proofs.Lines
import TapeMachine.Proofs.Runes
import TapeMachine.Proofs.LongLines
import TapeMachine.Proofs.Diagnostics
import TapeMachine.Proofs.Writing
import TapeMachine.Proofs.Decimals
import TapeMachine.Proofs.Entries
import TapeMachine.Proofs.Listings
import TapeMachine.Proofs.Dumps
import TapeMachine.Proofs.CommandLines
import TapeMachine.Proofs.Stopping
import TapeMachine.Proofs.Layers
import TapeMachine.Proofs.Options
import TapeMachine.Proofs.Origins
import TapeMachine.Proofs.Preview
import TapeMachine.Proofs.Strokes

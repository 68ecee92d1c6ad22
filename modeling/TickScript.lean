import TickScript.Builtin.FloatingPoint
import TickScript.Builtin.Memory
import TickScript.Bytes.Reader
import TickScript.Bytes.Writer
import TickScript.Compile
import TickScript.Delivery.Queue
import TickScript.Feature
import TickScript.Heap.Datum
import TickScript.Heap.Display
import TickScript.Image
import TickScript.Image.Decode
import TickScript.Image.Listing
import TickScript.Machine.Batch
import TickScript.Machine.Step
import TickScript.Main
import TickScript.Processor
import TickScript.Program
import TickScript.Program.Script
import TickScript.Syntax.Dump
import TickScript.Syntax.Parser
import TickScript.Text.Utf16
import TickScript.Tick
import TickScript.Token.Lexer
import TickScript.Token.Listing
import TickScript.Proofs.Success
import TickScript.Proofs.Image.Delimiting
import TickScript.Proofs.Program.Upgrade
import TickScript.Proofs.Machine.Control
import TickScript.Proofs.Meaning.Scripts
import TickScript.Proofs.Syntax.Height
import TickScript.Proofs.Tick.Bounds
import TickScript.Proofs.Tick.Soundness
import TickScript.Proofs.Tick.Suspension
import TickScript.Proofs.Machine.Halting
import TickScript.Proofs.Machine.Calls
import TickScript.Proofs.Heap.Accounts
import TickScript.Proofs.Heap.Handling
import TickScript.Proofs.Machine.Holdings
import TickScript.Proofs.Builtin.Tidiness
import TickScript.Proofs.Tick.Accounts
import TickScript.Proofs.Program.Places
import TickScript.Proofs.Machine.Places
import TickScript.Proofs.Machine.Reports
import TickScript.Proofs.Program.Rules
import TickScript.Proofs.Program.Gating
import TickScript.Proofs.Machine.Memory
import TickScript.Proofs.Machine.Contents
import TickScript.Proofs.Tick.Contents
import TickScript.Proofs.Decimal.Lengths
import TickScript.Proofs.Heap.Extent
import TickScript.Proofs.Tick.Texts
import TickScript.Proofs.Heap.Measures
import TickScript.Proofs.Tick.Sizes
import TickScript.Proofs.Tick.Limits
import TickScript.Proofs.Delivery.Wire
import TickScript.Proofs.Delivery.Accounts
import TickScript.Proofs.Delivery.Queue
import TickScript.Proofs.Tick.Events
import TickScript.Proofs.Builtin.Numbering
import TickScript.Proofs.Program.Callees
import TickScript.Proofs.Builtin.Dispatch
import TickScript.Proofs.Builtin.Order
import TickScript.Proofs.Syntax.Listing
import TickScript.Proofs.Syntax.Joining
import TickScript.Proofs.Token.Scanning
import TickScript.Proofs.Token.Spelling
import TickScript.Proofs.Token.LineBreaks
import TickScript.Proofs.Bytes.Alignment
import TickScript.Proofs.Token.Joining
import TickScript.Proofs.Image.Interning
import TickScript.Proofs.Image.Inflation
import TickScript.Proofs.Syntax.Progress

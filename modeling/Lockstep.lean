import Lockstep.Text.Quoted
import Lockstep.Decimal.Shortest
import Lockstep.Value.TypeText
import Lockstep.Instr.Listing
import Lockstep.Classes.Platform
import Lockstep.Classes.Subtype
import Lockstep.Stack.State
import Lockstep.Stack.Literal
import Lockstep.Stack.Truth
import Lockstep.Stack.Local
import Lockstep.Stack.Lemmas
import Lockstep.Flow.Heights
import Lockstep.Json.Reader
import Lockstep.Json.Writer
import Lockstep.Toml.Reader
import Lockstep.Settings.Document
import Lockstep.Trace.File
import Lockstep.Trace.Replay
import Lockstep.Main
import Lockstep.Proofs.Classes.Reachability
import Lockstep.Proofs.Classes.Subtyping
import Lockstep.Proofs.Classes.Worklist
import Lockstep.Proofs.Classes.Order
import Lockstep.Proofs.Classes.Aliases
import Lockstep.Proofs.Classes.Declarations
import Lockstep.Proofs.Decimal.Comparison
import Lockstep.Proofs.Decimal.PowersOfTwo
import Lockstep.Proofs.Decimal.Significands
import Lockstep.Proofs.Flow.Fragments
import Lockstep.Proofs.Flow.Blocks
import Lockstep.Proofs.Flow.Partition
import Lockstep.Proofs.Flow.Exploration
import Lockstep.Proofs.Flow.Verdict
import Lockstep.Proofs.Flow.Composition
import Lockstep.Proofs.Flow.Invariance
import Lockstep.Proofs.Machine.Views
import Lockstep.Proofs.Stack.Conversions
import Lockstep.Proofs.Stack.Shapes
import Lockstep.Proofs.Machine.Operations
import Lockstep.Proofs.Stack.Accesses
import Lockstep.Proofs.Stack.Calls
import Lockstep.Proofs.Machine.Truth
import Lockstep.Proofs.Machine.Runs
import Lockstep.Proofs.Machine.Types
import Lockstep.Proofs.Machine.Footprint
import Lockstep.Proofs.Machine.Stores
import Lockstep.Proofs.Machine.Literals
import Lockstep.Proofs.Machine.Words
import Lockstep.Proofs.Machine.Execution
import Lockstep.Proofs.Machine.TruthValues
import Lockstep.Proofs.Machine.Integers
import Lockstep.Proofs.Machine.LiteralLoads
import Lockstep.Proofs.Machine.Regions
import Lockstep.Proofs.Machine.Jumps
import Lockstep.Proofs.Machine.Precision
import Lockstep.Proofs.Value.Trimming
import Lockstep.Proofs.Value.Grammar
import Lockstep.Proofs.Value.TypeText
import Lockstep.Proofs.Instr.Descriptors
import Lockstep.Proofs.Json.Strings
import Lockstep.Proofs.Document.Values
import Lockstep.Proofs.Trace.Outcomes
import Lockstep.Proofs.Trace.Emission
import Lockstep.Proofs.Trace.Reports
import Lockstep.Proofs.Trace.Records
import Lockstep.Proofs.Trace.Relocation
import Lockstep.Proofs.Trace.Warnings
import Lockstep.Proofs.Trace.RoundTrip
import Lockstep.Proofs.Trace.TypeTexts

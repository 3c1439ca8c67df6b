import SlotVm.Action
import SlotVm.Code.Alignment
import SlotVm.Code.Assembler
import SlotVm.Code.Decode
import SlotVm.Code.Instruction
import SlotVm.Code.Listing
import SlotVm.Code.Opcode
import SlotVm.Config.Basic
import SlotVm.Config.Json
import SlotVm.Decimal.Layout
import SlotVm.Decimal.Shortest
import SlotVm.Fault
import SlotVm.Heap.Arena
import SlotVm.Heap.Basic
import SlotVm.Heap.Object
import SlotVm.Host.Arguments
import SlotVm.Host.Session
import SlotVm.Host.Settings
import SlotVm.Host.Usage
import SlotVm.Image.Basic
import SlotVm.Image.Builder
import SlotVm.Image.Check
import SlotVm.Image.Json
import SlotVm.Image.Listing
import SlotVm.Image.Resolve
import SlotVm.Json.Basic
import SlotVm.Json.Printer
import SlotVm.Json.Reader
import SlotVm.Json.Record
import SlotVm.Json.Single
import SlotVm.Log
import SlotVm.Machine.Arithmetic
import SlotVm.Machine.Call
import SlotVm.Machine.Data
import SlotVm.Machine.Execute
import SlotVm.Machine.Frame
import SlotVm.Machine.Run
import SlotVm.Machine.State
import SlotVm.Main
import SlotVm.MethodRef
import SlotVm.Native.Bridge
import SlotVm.Native.Console
import SlotVm.Native.Family
import SlotVm.Native.Ids
import SlotVm.Native.Stdio
import SlotVm.Native.Store
import SlotVm.Native.Strings
import SlotVm.Proofs.Action
import SlotVm.Proofs.Alignment
import SlotVm.Proofs.Ancestors
import SlotVm.Proofs.Arena
import SlotVm.Proofs.Arithmetic
import SlotVm.Proofs.Assembler
import SlotVm.Proofs.BufferChains
import SlotVm.Proofs.Builder
import SlotVm.Proofs.Calls
import SlotVm.Proofs.Config
import SlotVm.Proofs.Confinement
import SlotVm.Proofs.ConsoleInput
import SlotVm.Proofs.Decode
import SlotVm.Proofs.Dispatch
import SlotVm.Proofs.Encode
import SlotVm.Proofs.Families
import SlotVm.Proofs.Faults
import SlotVm.Proofs.Floats
import SlotVm.Proofs.Frames
import SlotVm.Proofs.Grammar
import SlotVm.Proofs.Heap
import SlotVm.Proofs.Image
import SlotVm.Proofs.Immediates
import SlotVm.Proofs.IntegerBounds
import SlotVm.Proofs.IntegerSteps
import SlotVm.Proofs.Integers
import SlotVm.Proofs.Isolation
import SlotVm.Proofs.Json.Config
import SlotVm.Proofs.Json.Image
import SlotVm.Proofs.Json.Records
import SlotVm.Proofs.Json.Tokens
import SlotVm.Proofs.Json.Values
import SlotVm.Proofs.Limits
import SlotVm.Proofs.Listings
import SlotVm.Proofs.Lockstep.Action
import SlotVm.Proofs.Lockstep.Data
import SlotVm.Proofs.Lockstep.Machine
import SlotVm.Proofs.Lockstep.Native
import SlotVm.Proofs.Lockstep.Run
import SlotVm.Proofs.Lockstep.Session
import SlotVm.Proofs.Lockstep.Store
import SlotVm.Proofs.Lookups
import SlotVm.Proofs.Machine.Call
import SlotVm.Proofs.Machine.Effect
import SlotVm.Proofs.Machine.Execute
import SlotVm.Proofs.Machine.Invariant
import SlotVm.Proofs.Machine.Run
import SlotVm.Proofs.Machine.Session
import SlotVm.Proofs.Machine.Step
import SlotVm.Proofs.NamedCalls
import SlotVm.Proofs.Narrowing.Elements
import SlotVm.Proofs.Narrowing.Session
import SlotVm.Proofs.Narrowing.Spared
import SlotVm.Proofs.Narrowing.Steps
import SlotVm.Proofs.Narrowing.Writes
import SlotVm.Proofs.Objects
import SlotVm.Proofs.Operands
import SlotVm.Proofs.Receivers
import SlotVm.Proofs.References
import SlotVm.Proofs.Residues
import SlotVm.Proofs.Resolution
import SlotVm.Proofs.StableSort
import SlotVm.Proofs.Stack
import SlotVm.Proofs.StackFloor
import SlotVm.Proofs.Store.Change
import SlotVm.Proofs.Store.Data
import SlotVm.Proofs.Store.Native
import SlotVm.Proofs.Store.Program
import SlotVm.Proofs.Store.Ready
import SlotVm.Proofs.StringBuffers
import SlotVm.Proofs.Switches
import SlotVm.Proofs.TextCopies
import SlotVm.Proofs.Texts
import SlotVm.Proofs.Values
import SlotVm.Proofs.Walks
import SlotVm.Proofs.WellFormed
import SlotVm.RefLayout
import SlotVm.Single.Basic
import SlotVm.Stack
import SlotVm.Text.Printable
import SlotVm.Text.Quoted
import SlotVm.Value
import SlotVm.Word

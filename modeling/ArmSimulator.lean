import ArmSimulator.Foundation.AliasedStore
import ArmSimulator.Foundation.BinarySearch
import ArmSimulator.Foundation.BlockReversal
import ArmSimulator.Foundation.ByteBlock
import ArmSimulator.Foundation.ExceptRun
import ArmSimulator.Foundation.FlipFlop
import ArmSimulator.Foundation.LongestMatch
import ArmSimulator.Foundation.LookupTable
import ArmSimulator.Foundation.Numeral
import ArmSimulator.Foundation.Overlay
import ArmSimulator.Foundation.Recording
import ArmSimulator.Foundation.Simulation
import ArmSimulator.Foundation.StepLogic
import ArmSimulator.Machine.Host
import ArmSimulator.Machine.Util
import ArmSimulator.Machine.Memory
import ArmSimulator.Machine.Registers
import ArmSimulator.Machine.Core
import ArmSimulator.Machine.Exception
import ArmSimulator.Machine.DataProcessing
import ArmSimulator.Machine.BranchOther
import ArmSimulator.Machine.LoadStore
import ArmSimulator.Machine.Instruction
import ArmSimulator.Machine.CString
import ArmSimulator.Machine.GdbProtocol
import ArmSimulator.Machine.Scanner
import ArmSimulator.Machine.Yylex
import ArmSimulator.Machine.System
import ArmSimulator.Machine.Debug
import ArmSimulator.Storage.Blocks
import ArmSimulator.Storage.Bounds
import ArmSimulator.Storage.Coherence
import ArmSimulator.Storage.Rewrite
import ArmSimulator.Storage.Words
import ArmSimulator.Storage.Faults
import ArmSimulator.Storage.Everywhere
import ArmSimulator.RegisterFile.File
import ArmSimulator.RegisterFile.Banks
import ArmSimulator.RegisterFile.SavedStatus
import ArmSimulator.RegisterFile.Processor
import ArmSimulator.RegisterFile.Writing
import ArmSimulator.Transfers.Target
import ArmSimulator.Transfers.Store
import ArmSimulator.Conditions.Table
import ArmSimulator.Conditions.Comparison
import ArmSimulator.Conditions.Encoding
import ArmSimulator.Conditions.Transparency
import ArmSimulator.Exceptions.Entry
import ArmSimulator.Exceptions.Frame
import ArmSimulator.Exceptions.Outcome
import ArmSimulator.Exceptions.Step
import ArmSimulator.Exceptions.Return
import ArmSimulator.Exceptions.EntryStatus
import ArmSimulator.Exceptions.DataAbort
import ArmSimulator.Exceptions.Masking
import ArmSimulator.Decoding.Dispatch
import ArmSimulator.Decoding.Unimplemented
import ArmSimulator.Decoding.Outcome
import ArmSimulator.DataProcessing.Effect
import ArmSimulator.DataProcessing.MultiWord
import ArmSimulator.DataProcessing.StraightLine
import ArmSimulator.DataProcessing.Logical
import ArmSimulator.DataProcessing.Addition
import ArmSimulator.DataProcessing.Carry
import ArmSimulator.DataProcessing.Operands
import ArmSimulator.Shifting.Specification
import ArmSimulator.Shifting.BarrelShifter
import ArmSimulator.Shifting.Counts
import ArmSimulator.Branching.Branch
import ArmSimulator.Transfers.Changes
import ArmSimulator.Status.Frame
import ArmSimulator.Status.Privilege
import ArmSimulator.Status.Indices
import ArmSimulator.Status.Lookups
import ArmSimulator.Status.Validity
import ArmSimulator.Status.Fields
import ArmSimulator.Transfers.Access
import ArmSimulator.Transfers.PlainOffset
import ArmSimulator.Transfers.ExtraAddress
import ArmSimulator.Transfers.Doubleword
import ArmSimulator.Transfers.MixedWidth
import ArmSimulator.Transfers.ScaledIndex
import ArmSimulator.Transfers.BlockLoops
import ArmSimulator.Transfers.Block
import ArmSimulator.Transfers.Writeback
import ArmSimulator.Transfers.Completion
import ArmSimulator.Transfers.Assertion
import ArmSimulator.Transfers.Locals
import ArmSimulator.Decoding.Halting
import ArmSimulator.Debugger.Reply
import ArmSimulator.Debugger.Words
import ArmSimulator.Debugger.Request
import ArmSimulator.Debugger.MemoryAccess
import ArmSimulator.Debugger.RegisterBlock
import ArmSimulator.Debugger.RegisterAccess
import ArmSimulator.Debugger.Views
import ArmSimulator.Debugger.Framing
import ArmSimulator.Debugger.Snapshot
import ArmSimulator.Debugger.Continue
import ArmSimulator.Debugger.Retransmission
import ArmSimulator.Debugger.Text
import ArmSimulator.Debugger.Handling
import ArmSimulator.Debugger.ReplyBound
import ArmSimulator.Debugger.ErrorBuffer
import ArmSimulator.Debugger.Robustness
import ArmSimulator.Architecture.Instructions
import ArmSimulator.Architecture.View
import ArmSimulator.Architecture.Encoding
import ArmSimulator.Architecture.Computing
import ArmSimulator.Architecture.Refinement
import ArmSimulator.Architecture.Countdown
import ArmSimulator.Footprint.Accesses
import ArmSimulator.Footprint.Instructions
import ArmSimulator.Footprint.Writes
import ArmSimulator.Footprint.Steps
import ArmSimulator.Footprint.Frame
import ArmSimulator.Footprint.Endianness
import ArmSimulator.Messages.Selection
import ArmSimulator.Scanning.Rules
import ArmSimulator.Scanning.Tables
import ArmSimulator.Scanning.Matching
import ArmSimulator.Scanning.Stream
import ArmSimulator.Scanning.Packets
import ArmSimulator.Sessions.Damage
import ArmSimulator.Sessions.Store
import ArmSimulator.Sessions.Server
import ArmSimulator.Sessions.Commands
import ArmSimulator.Sessions.Breakpoints
import ArmSimulator.Architecture.Programs

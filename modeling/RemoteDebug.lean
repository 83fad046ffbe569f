import RemoteDebug.Ascii
import RemoteDebug.Field
import RemoteDebug.Hex.Digit
import RemoteDebug.Hex.Number
import RemoteDebug.Hex.Buffer
import RemoteDebug.LittleEndian
import RemoteDebug.Packet.Frame
import RemoteDebug.Packet.Receiver
import RemoteDebug.Thread.Ptid
import RemoteDebug.Thread.Id
import RemoteDebug.Signal
import RemoteDebug.Reply.Buffer
import RemoteDebug.Cpu.Registers
import RemoteDebug.Cpu.Trap
import RemoteDebug.Cpu.DebugSlot
import RemoteDebug.SlotTable
import RemoteDebug.Command.Basic
import RemoteDebug.Command.Parser
import RemoteDebug.Kernel.Memory
import RemoteDebug.Kernel.Call
import RemoteDebug.Kernel.Basic
import RemoteDebug.Breakpoint.Table
import RemoteDebug.Breakpoint.Patch
import RemoteDebug.Breakpoint.Trigger
import RemoteDebug.Registry.Basic
import RemoteDebug.Registry.Debuggee
import RemoteDebug.Kernel.Transfer
import RemoteDebug.Reply.Listing
import RemoteDebug.Registry.Actions
import RemoteDebug.Session.Wire
import RemoteDebug.Session.Stop
import RemoteDebug.Session.Config
import RemoteDebug.Session.Basic
import RemoteDebug.Session.Command
import RemoteDebug.Session.Event
import RemoteDebug.Proofs.SlotTable
import RemoteDebug.Proofs.Kernel.Calls
import RemoteDebug.Proofs.Registry.Roster
import RemoteDebug.Proofs.Hex.Compact
import RemoteDebug.Proofs.Thread.Name
import RemoteDebug.Proofs.Reply.Encoding
import RemoteDebug.Proofs.Session.StopReply
import RemoteDebug.Proofs.Debuggee.Operation
import RemoteDebug.Proofs.Session.Answer
import RemoteDebug.Proofs.Session.Run
import RemoteDebug.Proofs.Session.Receiving
import RemoteDebug.Proofs.Session.Reporting
import RemoteDebug.Proofs.Debuggee.Names
import RemoteDebug.Proofs.Session.Ready
import RemoteDebug.Proofs.Session.Telling
import RemoteDebug.Proofs.Session.Balance
import RemoteDebug.Proofs.Session.StopOrder
import RemoteDebug.Proofs.Debuggee.Footprint
import RemoteDebug.Proofs.Debuggee.Suspension
import RemoteDebug.Proofs.Session.Discipline
import RemoteDebug.Proofs.Session.Operations
import RemoteDebug.Proofs.Breakpoint.Slots
import RemoteDebug.Proofs.Registry.Mirror
import RemoteDebug.Proofs.Debuggee.Mirror
import RemoteDebug.Proofs.Session.Mirror
import RemoteDebug.Proofs.Breakpoint.Traps
import RemoteDebug.Proofs.Registry.Overlay
import RemoteDebug.Proofs.Packet.InPlace
import RemoteDebug.Proofs.Packet.Reading
import RemoteDebug.Proofs.SlotTable.Given
import RemoteDebug.Proofs.Registry.Lookup
import RemoteDebug.Proofs.Registry.Outline
import RemoteDebug.Proofs.Registry.Ledger
import RemoteDebug.Proofs.Debuggee.Lifetime
import RemoteDebug.Proofs.Session.Acknowledgement
import RemoteDebug.Proofs.Registry.Targets
import RemoteDebug.Proofs.Debuggee.Apart
import RemoteDebug.Proofs.Debuggee.Motion
import RemoteDebug.Proofs.Debuggee.Resumption
import RemoteDebug.Proofs.Session.Resumption
import RemoteDebug.Proofs.Debuggee.Selection
import RemoteDebug.Proofs.Debuggee.Order
import RemoteDebug.Proofs.Packet.Delivery
import RemoteDebug.Proofs.Reply.Sendable
import RemoteDebug.Proofs.Session.Selection
import RemoteDebug.Proofs.Session.Framing
import RemoteDebug.Proofs.Session.Hearing
import RemoteDebug.Proofs.Session.Midst
import RemoteDebug.Proofs.Session.Liveness
import RemoteDebug.Proofs.Breakpoint.Entries
import RemoteDebug.Proofs.Breakpoint.Restoring
import RemoteDebug.Proofs.Registry.Tables
import RemoteDebug.Proofs.Kernel.Writing
import RemoteDebug.Proofs.Debuggee.Tables
import RemoteDebug.Proofs.Debuggee.Housed
import RemoteDebug.Proofs.Debuggee.Traps
import RemoteDebug.Proofs.Debuggee.Release
import RemoteDebug.Proofs.Session.Touching
import RemoteDebug.Proofs.Session.Sited
import RemoteDebug.Proofs.Session.Traps
import RemoteDebug.Proofs.Session.Departure
import RemoteDebug.Proofs.Session.Sending
import RemoteDebug.Proofs.Session.Capacity
import RemoteDebug.Proofs.Session.Failures
import RemoteDebug.Proofs.Hex.Digits
import RemoteDebug.Proofs.Kernel.Reading
import RemoteDebug.Proofs.Session.Memory
import RemoteDebug.Proofs.Reply.Paging
import RemoteDebug.Proofs.Session.Listing
import RemoteDebug.Proofs.Packet.Resynchronisation
import RemoteDebug.Proofs.SlotTable.Claim
import RemoteDebug.Proofs.SlotTable.Standing
import RemoteDebug.Proofs.SlotTable.Turn
import RemoteDebug.Proofs.SlotTable.Issue
import RemoteDebug.Proofs.SlotTable.Account
import RemoteDebug.Proofs.Debuggee.Refusal
import RemoteDebug.Proofs.Session.Refusal
import RemoteDebug.Proofs.Cpu.Registers
import RemoteDebug.Proofs.Debuggee.Replay
import RemoteDebug.Proofs.Session.Registers
import RemoteDebug.Proofs.Hex.Denotation
import RemoteDebug.Proofs.Hex.Fault
import RemoteDebug.Proofs.Hex.Numeral
import RemoteDebug.Proofs.Hex.Transfer
import RemoteDebug.Proofs.Reply.Calls
import RemoteDebug.Proofs.Reply.Storage
import RemoteDebug.Proofs.Field
import RemoteDebug.Proofs.Thread.Grammar
import RemoteDebug.Proofs.Command.Parts
import RemoteDebug.Proofs.Command.Grammar
import RemoteDebug.Proofs.Session.Faults
import RemoteDebug.Proofs.Session.Serving
import RemoteDebug.Proofs.Session.Words
import RemoteDebug.Proofs.Session.Confinement

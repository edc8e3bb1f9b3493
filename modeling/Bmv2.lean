import Bmv2.Ageing.AgeingMonitor
import Bmv2.Ageing.Notifications
import Bmv2.Cli.Encoded
import Bmv2.Cli.ParseParam
import Bmv2.Data
import Bmv2.Debugger.DebuggerNN
import Bmv2.Debugger.FieldMap
import Bmv2.Debugger.FieldNames
import Bmv2.Debugger.Messages
import Bmv2.Debugger.Protocol
import Bmv2.Debugger.Steps
import Bmv2.Debugger.StopTheWorld
import Bmv2.Debugger.Wire
import Bmv2.Expressions.Code
import Bmv2.Expressions.Correct
import Bmv2.Expressions.Eval
import Bmv2.Expressions.Reads
import Bmv2.Expressions.Safety
import Bmv2.Expressions.TwoCompMod
import Bmv2.Expressions.Typing
import Bmv2.Learning.Acknowledge
import Bmv2.Learning.Delivery
import Bmv2.Learning.LearnList
import Bmv2.Lib.BigEndian
import Bmv2.Lib.Bisimulation
import Bmv2.Lib.BitWriter
import Bmv2.Lib.Blocks
import Bmv2.Lib.ByteBits
import Bmv2.Lib.ByteBuffer
import Bmv2.Lib.Crc
import Bmv2.Lib.HeadMerge
import Bmv2.Lib.LongestPrefix
import Bmv2.Lib.Monitor
import Bmv2.Lib.OnesComplement
import Bmv2.Lib.Places
import Bmv2.Lib.PriorityQueue
import Bmv2.Lib.PythonInt
import Bmv2.Lib.Records
import Bmv2.Lib.References
import Bmv2.Lib.Sliding
import Bmv2.Lib.TokenBucket
import Bmv2.Lib.Transition
import Bmv2.Lib.TwosComplement
import Bmv2.Lib.UnorderedMap
import Bmv2.Lpm.Correct
import Bmv2.Lpm.Operations
import Bmv2.Lpm.Shape
import Bmv2.Lpm.Trie
import Bmv2.Match.Clear
import Bmv2.Match.Encoding
import Bmv2.Match.HandleMgr
import Bmv2.Match.KeyBuilder
import Bmv2.Match.KeyLayout
import Bmv2.Match.Layout
import Bmv2.Match.LookupStructures
import Bmv2.Match.PacketKey
import Bmv2.Match.RoundTrip
import Bmv2.Match.Semantics
import Bmv2.Match.Sound
import Bmv2.Match.Store
import Bmv2.Match.Ternary
import Bmv2.Match.Unit
import Bmv2.Match.UnitSpec
import Bmv2.Meters
import Bmv2.Meters.Buckets
import Bmv2.Meters.Clock
import Bmv2.Meters.Conformance
import Bmv2.Meters.Refused
import Bmv2.Meters.SetRates
import Bmv2.Packet.Buffer
import Bmv2.Packet.CalcInput
import Bmv2.Packet.Checksums
import Bmv2.Packet.Cksum16
import Bmv2.Packet.Clone
import Bmv2.Packet.Crc
import Bmv2.Packet.Deparser
import Bmv2.Packet.Extract
import Bmv2.Packet.Fidelity
import Bmv2.Packet.FieldRuns
import Bmv2.Packet.FieldValue
import Bmv2.Packet.Fields
import Bmv2.Packet.Headers
import Bmv2.Packet.Identity
import Bmv2.Packet.InUse
import Bmv2.Packet.Leak
import Bmv2.Packet.LiveStacks
import Bmv2.Packet.Parser
import Bmv2.Packet.Phv
import Bmv2.Packet.Primitives
import Bmv2.Packet.SameLive
import Bmv2.Packet.Shape
import Bmv2.Packet.Slice
import Bmv2.Packet.StackMoves
import Bmv2.Packet.StackOps
import Bmv2.Packet.StackRuns
import Bmv2.Packet.Stacks
import Bmv2.Packet.VLHeaders
import Bmv2.Packet.VarLength
import Bmv2.Packet.VarStacks
import Bmv2.Packet.Verify
import Bmv2.Packet.Wire
import Bmv2.Pipeline.ControlFlow
import Bmv2.Pipeline.Held
import Bmv2.Pipeline.Paths
import Bmv2.Pipeline.Targets
import Bmv2.Pipeline.Writes
import Bmv2.Pool.CopyIds
import Bmv2.Pool.Ownership
import Bmv2.Pool.Swap
import Bmv2.Ports.Events
import Bmv2.Ports.PacketIn
import Bmv2.Pre.LagReplication
import Bmv2.Pre.Replication
import Bmv2.Pre.SimplePre
import Bmv2.Pre.SimplePreLag
import Bmv2.Queueing.Blocking
import Bmv2.Queueing.Fifo
import Bmv2.Queueing.Lanes
import Bmv2.Queueing.Occupancy
import Bmv2.Queueing.Paced
import Bmv2.Queueing.RateLimited
import Bmv2.Queueing.Wakeups
import Bmv2.Registers.Exclusive
import Bmv2.Registers.Sync
import Bmv2.Replay.Merging
import Bmv2.Replay.PcapFile
import Bmv2.Switch.Accounting
import Bmv2.Switch.ArithFields
import Bmv2.Switch.FieldLists
import Bmv2.Switch.Flow
import Bmv2.Switch.FlowSteps
import Bmv2.Switch.Headroom
import Bmv2.Switch.LoadConfig
import Bmv2.Switch.Original
import Bmv2.Switch.PortOrder
import Bmv2.Switch.Primitives
import Bmv2.Switch.SimpleSwitch
import Bmv2.Tables.Apply
import Bmv2.Tables.Base
import Bmv2.Tables.Counting
import Bmv2.Tables.Indirect
import Bmv2.Tables.IndirectSpec
import Bmv2.Tables.Isolation
import Bmv2.Tables.LookupSafe
import Bmv2.Tables.NextNode
import Bmv2.Tables.RefCount
import Bmv2.Tables.References
import Bmv2.Tables.Reset
import Bmv2.Tables.SlotReuse
import Bmv2.Tables.Stale
import Bmv2.Tables.Twin
import Bmv2.Tables.UnitStep

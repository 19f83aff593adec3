import OranNs3.Ric.Dynamic
import OranNs3.Ric.Save
import OranNs3.Repository.NodeIds
import OranNs3.Rl.Window
import OranNs3.E2.Alloc
import OranNs3.E2.Null
import OranNs3.E2.Bytes
import OranNs3.E2.Reporters
import OranNs3.E2.Sends
import OranNs3.Ra.Preambles
import OranNs3.Rrc.Command
import OranNs3.Rrc.HandoverSafe
import OranNs3.Rrc.Timers
import OranNs3.Phy.Configured
import OranNs3.Mac.HandOff
import OranNs3.Rlc.UmLink
import OranNs3.Rlc.AmLink
import OranNs3.Sim.Heap
import OranNs3.Sim.OnCalendar
import OranNs3.Tcp.TxSack
import OranNs3.Tcp.RxSack
import OranNs3.Tcp.Transfer
import OranNs3.Network.BufferAppend
import OranNs3.Network.PacketTagsReplace
import OranNs3.Network.ByteTagsRuns
import OranNs3.Rlc.ControlHeader
import OranNs3.Rlc.UmWindow
import OranNs3.Wifi.Originator
import OranNs3.Wifi.Recipient
import OranNs3.Network.PacketSerialize
import OranNs3.Ipv4.Delivery
import OranNs3.Asn1.RoundTrip
import OranNs3.Rlc.RoundTrip
import OranNs3.Epc.GtpcRoundTrip
import OranNs3.Core.Int64x64Invert
import OranNs3.Sched.BeamOrder
import OranNs3.Sched.UlHarq
import OranNs3.Rl.Shares
import OranNs3.Sched.OfdmaDlRuns
import OranNs3.Sched.DlHarqSafety
import OranNs3.Rrc.SrsIndex
import OranNs3.Sched.SrsOffsets
import OranNs3.Sched.LcMinimum
import OranNs3.Sched.UlDci
import OranNs3.Sched.ReshapeList
import OranNs3.Sched.BeamRotation
import OranNs3.Phy.Deferred
import OranNs3.Phy.CsiRsOffsets
import OranNs3.Fh.MaxReg
import OranNs3.Ra.Msg3
import OranNs3.Mac.GrantBudget
import OranNs3.Mac.SchedulingRequest
import OranNs3.E2.PeriodicTrigger
import OranNs3.Network.SequenceNumber
import OranNs3.Ric.Deactivate
import OranNs3.Rl.Decode
import OranNs3.CoDel.Dequeue
import OranNs3.Epc.TftClassifier

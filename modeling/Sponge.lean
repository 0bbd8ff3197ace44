import Sponge.Library.Runs
import Sponge.Library.Blocks
import Sponge.Library.GapMap
import Sponge.Library.Layout
import Sponge.Library.BoundedQueue
import Sponge.Library.OnesComplement
import Sponge.Library.KeyedList
import Sponge.Library.Pieces
import Sponge.Library.Loops
import Sponge.Sequence.Wrapping
import Sponge.Sequence.Closest
import Sponge.Sequence.Shift
import Sponge.Sequence.Segment
import Sponge.Stream.ByteStream
import Sponge.Stream.Reassembler
import Sponge.Stream.Assembly
import Sponge.Stream.Growth
import Sponge.Stream.Counting
import Sponge.Stream.Refinement
import Sponge.Stream.LongStreams
import Sponge.Stream.Fifo
import Sponge.Stream.Finality
import Sponge.Stream.Overreading
import Sponge.Receiver.Basic
import Sponge.Receiver.Ackno
import Sponge.Receiver.Completion
import Sponge.Receiver.Monotone
import Sponge.Receiver.Stray
import Sponge.Receiver.OutOfWindow
import Sponge.Sender.Basic
import Sponge.Sender.Acking
import Sponge.Sender.Filling
import Sponge.Sender.Tiling
import Sponge.Sender.Slices
import Sponge.Sender.Flight
import Sponge.Sender.Outstanding
import Sponge.Sender.Accepting
import Sponge.Sender.Timer
import Sponge.Sender.Opening
import Sponge.Sender.Retransmissions
import Sponge.Sender.Usage
import Sponge.Connection.Basic
import Sponge.Connection.State
import Sponge.Connection.Sending
import Sponge.Connection.Plain
import Sponge.Connection.GivingUp
import Sponge.Connection.Aborting
import Sponge.Connection.Close
import Sponge.Connection.Outgoing
import Sponge.Connection.Incoming
import Sponge.Connection.Ended
import Sponge.Connection.Streams
import Sponge.Connection.Window
import Sponge.Connection.Lingering
import Sponge.Connection.Reset
import Sponge.Connection.Answering
import Sponge.Network.Basic
import Sponge.Network.Safety
import Sponge.Network.Retention
import Sponge.Packet.Parser
import Sponge.Packet.Checksum
import Sponge.Packet.IPv4
import Sponge.Packet.TCP
import Sponge.Packet.RoundTrip
import Sponge.Packet.Chunks
import Sponge.Packet.Ethernet
import Sponge.Packet.LinkLayer
import Sponge.Interface.Basic
import Sponge.Interface.Delivery
import Sponge.Interface.Freshness
import Sponge.Descriptor.Buffers
import Sponge.Descriptor.Writing
import Sponge.Descriptor.Reading
import Sponge.Descriptor.EventLoop
import Sponge.Descriptor.StreamCopy
import Sponge.Adapter.TCPOverIPv4
import Sponge.Adapter.Transit
import Sponge.Adapter.Basic
import Sponge.Adapter.Devices
import Sponge.Router.Basic
import Sponge.Router.LongestPrefix
import Sponge.Router.LastCall
import Sponge.Router.Exceptions
import Sponge.Router.Forwarding
import Sponge.Router.Transit
import Sponge.Socket.Basic
import Sponge.Socket.Conveying
import Sponge.Socket.Streams
import Sponge.Socket.Pair
import Sponge.Socket.Internet
import Sponge.Socket.Loop

import GEngine.Bytes
import GEngine.Effect
import GEngine.Heap
import GEngine.Channel
import GEngine.Varint
import GEngine.Wire
import GEngine.Wire.Schema
import GEngine.Interleave
import GEngine.Inet
import GEngine.Inet.Ip6
import GEngine.Memorystream
import GEngine.Memorystream.Bounds
import GEngine.Memorystream.Log
import GEngine.Packet
import GEngine.Packet.Cursor
import GEngine.Packet.Header
import GEngine.Packet.Body
import GEngine.Packet.Import
import GEngine.Packet.ReadBack
import GEngine.Packet.Subscript
import GEngine.UvPacket
import GEngine.UvService
import GEngine.UvService.Change
import GEngine.UvService.Tables
import GEngine.UvService.Registration
import GEngine.UvService.Receive
import GEngine.UvService.Disconnect
import GEngine.UvService.Abort
import GEngine.UvService.Framing
import GEngine.UvService.Genuine
import GEngine.UvService.Lifetime
import GEngine.UvService.Connect
import GEngine.UvService.Teardown
import GEngine.UvUdpServer
import GEngine.Send
import GEngine.Send.Buffer
import GEngine.Dispatcher
import GEngine.Dispatcher.Reentrant
import GEngine.Serverapp
import GEngine.Serverapp.Receive
import GEngine.Serverapp.Address
import GEngine.UvUdpServer.Network
import GEngine.Pb.CodedStream
import GEngine.Pb.Varint
import GEngine.Pb.WireFormat
import GEngine.Pb.Message
import GEngine.Pb.Codec
import GEngine.Pb.Server
import GEngine.Pb.Login
import GEngine.Pb.Roundtrip
import GEngine.Packet.Message
import GEngine.Serverapp.Register
import GEngine.Gmain
import GEngine.Singleton

import UpsServer.Lib.CycleSearch
import UpsServer.Lib.Split
import UpsServer.Linux.EventLoop
import UpsServer.Linux.EventfdQueue
import UpsServer.Lib.Transition
import UpsServer.Protocol.RoundTrip
import UpsServer.GameRoom.ShortestCycle
import UpsServer.GameRoom.LossReport
import UpsServer.GameRoom.Drop
import UpsServer.GameServer.Rejoin
import UpsServer.GameServer.ClientLoss
import UpsServer.GameServer.Ownership
import UpsServer.Protocol.Grammar
import UpsServer.GameServer.BuiltMessages
import UpsServer.GameRoom.View
import UpsServer.GameRoom.Resume
import UpsServer.GameRoom.Stuck
import UpsServer.GameServer.Representation
import UpsServer.GameServer.UniqueNames
import UpsServer.GameServer.Agreement
import UpsServer.GameServer.RoomList
import UpsServer.GameServer.PlayerLimit
import UpsServer.Linux.QueueThreads
import UpsServer.GameServer.UnreadBytes
import UpsServer.GameRoom.DescriptorTable
import UpsServer.GameServer.LostMessages
import UpsServer.GameRoom.EdgeList
import UpsServer.GameRoom.Inactivity
import UpsServer.GameRoom.EdgeFormat
import UpsServer.Protocol.AttributeLines
import UpsServer.Protocol.Outgoing
import UpsServer.GameServer.RoomRows
import UpsServer.Linux.Interest
import UpsServer.Config.ServerConfig
import UpsServer.Protocol.ParserCache
import UpsServer.GameServer.Simulation
import UpsServer.GameServer.Progress
import UpsServer.GameServer.RoomLife
import UpsServer.GameRoom.Play
import UpsServer.Linux.AtomicQueue
import UpsServer.GameRoom.SharedView
import UpsServer.GameRoom.Fates
import UpsServer.GameServer.Dialogue
import UpsServer.GameServer.StateText
import UpsServer.GameServer.Crowding
import UpsServer.GameRoom.Draw
import UpsServer.GameServer.GameDialogue
import UpsServer.GameServer.IdleLoop

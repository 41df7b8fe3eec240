import RoomSpeaker.Foundation.Run
import RoomSpeaker.Foundation.LittleEndian
import RoomSpeaker.Foundation.Ring
import RoomSpeaker.Foundation.Fifo
import RoomSpeaker.Foundation.KeyMap
import RoomSpeaker.Foundation.Arrival
import RoomSpeaker.Foundation.Pointwise
import RoomSpeaker.Foundation.Records
import RoomSpeaker.Foundation.Custody
import RoomSpeaker.Foundation.Pending
import RoomSpeaker.Foundation.Limiter
import RoomSpeaker.Foundation.Memory
import RoomSpeaker.Foundation.CString
import RoomSpeaker.Foundation.Decimal
import RoomSpeaker.Foundation.Scanf
import RoomSpeaker.Foundation.Loop
import RoomSpeaker.Foundation.History
import RoomSpeaker.Foundation.Framing
import RoomSpeaker.Foundation.Mailbox
import RoomSpeaker.Foundation.DiscretePid
import RoomSpeaker.Foundation.Handles
import RoomSpeaker.Model.BufHdr
import RoomSpeaker.Model.Circle
import RoomSpeaker.Model.QueueThreads
import RoomSpeaker.Model.Sock
import RoomSpeaker.Model.TcpSrv
import RoomSpeaker.Model.Sclient
import RoomSpeaker.Model.Speaker
import RoomSpeaker.Model.Server
import RoomSpeaker.Model.System
import RoomSpeaker.Model.CircleCalls
import RoomSpeaker.Model.Client
import RoomSpeaker.Model.Poll
import RoomSpeaker.Model.Connection
import RoomSpeaker.Model.Tick
import RoomSpeaker.Model.Saddr46
import RoomSpeaker.Model.Cleanup
import RoomSpeaker.Model.Transfer
import RoomSpeaker.Model.Pid
import RoomSpeaker.Model.Pacing
import RoomSpeaker.Model.AoCls
import RoomSpeaker.Model.Udper
import RoomSpeaker.Model.Inet
import RoomSpeaker.Model.SaddrText
import RoomSpeaker.Model.Connect
import RoomSpeaker.Model.CircleWords
import RoomSpeaker.Model.Reconnect
import RoomSpeaker.Model.Discovery
import RoomSpeaker.Model.Descriptors
import RoomSpeaker.Verified.CircleSpec
import RoomSpeaker.Verified.FifoRefinement
import RoomSpeaker.Verified.SockSpec
import RoomSpeaker.Verified.SrvSpec
import RoomSpeaker.Verified.PilotIndex
import RoomSpeaker.Verified.PilotSuccession
import RoomSpeaker.Verified.PilotFlag
import RoomSpeaker.Verified.PilotView
import RoomSpeaker.Verified.Gate
import RoomSpeaker.Verified.Resync
import RoomSpeaker.Verified.FrameSpec
import RoomSpeaker.Verified.SpeakerSpec
import RoomSpeaker.Verified.GetData
import RoomSpeaker.Verified.FailedReceive
import RoomSpeaker.Verified.PlayBounds
import RoomSpeaker.Verified.ServerSpec
import RoomSpeaker.Verified.Delivery
import RoomSpeaker.Verified.Handshake
import RoomSpeaker.Verified.Isolation
import RoomSpeaker.Verified.CircleRuns
import RoomSpeaker.Verified.CircleCursors
import RoomSpeaker.Verified.Trimming
import RoomSpeaker.Verified.Ownership
import RoomSpeaker.Verified.Refill
import RoomSpeaker.Verified.PilotTarget
import RoomSpeaker.Verified.Polling
import RoomSpeaker.Verified.Boundary
import RoomSpeaker.Verified.Ticking
import RoomSpeaker.Verified.SaddrOrder
import RoomSpeaker.Verified.Cleanup
import RoomSpeaker.Verified.Transfer
import RoomSpeaker.Verified.PidRange
import RoomSpeaker.Verified.SleepBounds
import RoomSpeaker.Verified.AudioRing
import RoomSpeaker.Verified.ByteOrder
import RoomSpeaker.Verified.AddrText
import RoomSpeaker.Verified.AddrFile
import RoomSpeaker.Verified.Discovery
import RoomSpeaker.Verified.Connecting
import RoomSpeaker.Verified.Playback
import RoomSpeaker.Verified.Broadcast
import RoomSpeaker.Verified.Unsteered
import RoomSpeaker.Verified.PipeToRoom
import RoomSpeaker.Verified.Segmentation
import RoomSpeaker.Verified.Draining
import RoomSpeaker.Verified.Reports
import RoomSpeaker.Verified.PidLaw
import RoomSpeaker.Verified.Reconnecting
import RoomSpeaker.Verified.Beacon
import RoomSpeaker.Verified.Joining
import RoomSpeaker.Verified.Lifecycle
import RoomSpeaker.Verified.RealTime
import RoomSpeaker.Verified.Descriptors
import RoomSpeaker.Verified.SelectSet

import NetStudy.Transition
import NetStudy.CyclicWindow
import NetStudy.Pool
import NetStudy.PoolFifo
import NetStudy.CriticalSection
import NetStudy.PoolThreads
import NetStudy.PoolHandOver
import NetStudy.PoolSections
import NetStudy.PoolStranded
import NetStudy.PoolSystem
import NetStudy.PoolShutdown
import NetStudy.PoolLocks
import NetStudy.PoolCounters
import NetStudy.TaskCounter
import NetStudy.RequestSegments
import NetStudy.EdgeTriggered
import NetStudy.SelectAgree
import NetStudy.SelectEcho
import NetStudy.Descriptors
import NetStudy.PollTable
import NetStudy.ThreadPerConnection
import NetStudy.EpollRegistry
import NetStudy.ReactorTable
import NetStudy.SocketOwnership
import NetStudy.TtcpDeadlock
import NetStudy.EchoStream
import NetStudy.DoReadEnds
import NetStudy.HttpRequest
import NetStudy.HttpGrammar
import NetStudy.ResponseHead
import NetStudy.FileTransfer
import NetStudy.StackLocals
import NetStudy.LexicalPath
import NetStudy.ServedPaths
import NetStudy.ForkServer
import NetStudy.PollReset
import NetStudy.ReactorEcho
import NetStudy.ByteFields
import NetStudy.InetAddress
import NetStudy.AddressText
import NetStudy.AddressResolve
import NetStudy.FileTypes
import NetStudy.PollReads
import NetStudy.SelectLimit
import NetStudy.ReactorAccept
import NetStudy.WorkerTable
import NetStudy.Readiness
import NetStudy.Refinement
import NetStudy.StdoutServers
import NetStudy.EdgeStdout
import NetStudy.PipeReader
import NetStudy.CharBuffer
import NetStudy.Datagrams
import NetStudy.UdpEcho
import NetStudy.RequestArrivals
import NetStudy.AcceptedStreams
import NetStudy.EchoThreads
import NetStudy.EchoClient
import NetStudy.PoolBusy
import NetStudy.LocalServer
import NetStudy.ServedQueue
import NetStudy.BufferEvents
import NetStudy.Rounds
import NetStudy.LocalClient
import NetStudy.SockAccount
import NetStudy.WebSessions
import NetStudy.ClientsInTurn

import Lrlb.Lib.Word
import Lrlb.Lib.Address
import Lrlb.Lib.Run
import Lrlb.Lib.Split
import Lrlb.Proto.Messages
import Lrlb.Agent.HostInfo
import Lrlb.Agent.LoadBalance
import Lrlb.Agent.Partition
import Lrlb.Agent.Report
import Lrlb.Agent.Update
import Lrlb.Agent.HostKeys
import Lrlb.Agent.Alike
import Lrlb.Agent.Counters
import Lrlb.Agent.Observations
import Lrlb.Agent.RouteHeap
import Lrlb.Agent.RouteLb
import Lrlb.Agent.DnsClient
import Lrlb.Reactor.UdpServer
import Lrlb.Proto.Codec
import Lrlb.Agent.UdpServer
import Lrlb.Agent.Uninitialised
import Lrlb.Api.Client
import Lrlb.Api.Session
import Lrlb.Api.Sharding
import Lrlb.Lib.Stream
import Lrlb.Lib.Linked
import Lrlb.Lib.Memory
import Lrlb.Reactor.BufFrame
import Lrlb.Reactor.BufOwners
import Lrlb.Reactor.BufPool
import Lrlb.Reactor.IoBuf
import Lrlb.Reactor.InputBuf
import Lrlb.Reactor.TcpConn
import Lrlb.Reactor.TcpClient
import Lrlb.Reactor.Delivery
import Lrlb.Reactor.Chunking
import Lrlb.Reactor.ConnLimit
import Lrlb.Reactor.ConnTable
import Lrlb.Reactor.EventLoop
import Lrlb.Reactor.OutputBuf
import Lrlb.Reactor.Replies
import Lrlb.Reactor.TcpServer
import Lrlb.Reactor.ThreadQueue
import Lrlb.Reactor.WriteEvent
import Lrlb.Lib.SetMap
import Lrlb.Dns.Route
import Lrlb.Dns.Poller
import Lrlb.Dns.BookList
import Lrlb.Dns.Changes
import Lrlb.Dns.Subscribe
import Lrlb.Dns.Tables
import Lrlb.Api.Address
import Lrlb.Dns.Server
import Lrlb.Dns.Freshness
import Lrlb.Dns.PushList
import Lrlb.Dns.Pushes
import Lrlb.Reporter.Store
import Lrlb.Lib.Rotation
import Lrlb.Agent.Choice
import Lrlb.Agent.Survivors
import Lrlb.Agent.GetHost
import Lrlb.Agent.Commit
import Lrlb.Agent.Probation
import Lrlb.Reactor.OutputRun
import Lrlb.Reactor.Rollback
import Lrlb.Reactor.ReadOutcome
import Lrlb.Reactor.PoolMemory
import Lrlb.Reactor.CtlFailure
import Lrlb.Reactor.Datagrams
import Lrlb.Api.Backlog
import Lrlb.Reactor.ClientConn
import Lrlb.Reactor.ClientWrite
import Lrlb.Reactor.Connecting
import Lrlb.Lib.Text
import Lrlb.Reactor.ConfigFile
import Lrlb.Reactor.StringList
import Lrlb.Reactor.ConfigLines
import Lrlb.Reactor.ConfigText
import Lrlb.Dns.Versions
import Lrlb.Agent.Requests
import Lrlb.Pipeline.Routes
import Lrlb.Pipeline.Tables
import Lrlb.Pipeline.Pulls
import Lrlb.Pipeline.Rest
import Lrlb.Reactor.Duplex
import Lrlb.Pipeline.Wired
import Lrlb.Reactor.ThreadPool
import Lrlb.Dns.Pool
import Lrlb.Proto.Reports
import Lrlb.Pipeline.Reports
import Lrlb.Reporter.Turns
import Lrlb.Api.Lag
import Lrlb.Agent.Recovery
import Lrlb.Agent.Startup

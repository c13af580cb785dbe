import Rojcpp.Lib.Decimal
import Rojcpp.Lib.SqlLexer
import Rojcpp.Cpp.Text
import Rojcpp.Sql.Query
import Rojcpp.Sql.Curd
import Rojcpp.Cpp.Files
import Rojcpp.Judge.Check
import Rojcpp.Judge.JudgeArgs
import Rojcpp.Judge.Result
import Rojcpp.Judge.Problem
import Rojcpp.Judge.WorkPool
import Rojcpp.Judge.Verdict
import Rojcpp.Backend.ResultHandler
import Rojcpp.Backend.Outcome
import Rojcpp.Judge.Server
import Rojcpp.Judge.Delivery
import Rojcpp.Judge.Client
import Rojcpp.Judge.MessageBuffer
import Rojcpp.Judge.Receive
import Rojcpp.Http.Buffers
import Rojcpp.Http.PicoParser
import Rojcpp.Http.Request
import Rojcpp.Http.Deal
import Rojcpp.Json.Parse
import Rojcpp.Json.Layout
import Rojcpp.Json.UnpackingList
import Rojcpp.Json.Reflect
import Rojcpp.Json.JudgeEntiy
import Rojcpp.Json.RoundTrip
import Rojcpp.Lib.Threads
import Rojcpp.Mediator.ReadWriteLock
import Rojcpp.Mediator.JudgeCache
import Rojcpp.Logger.AsyncLogger
import Rojcpp.Logger.Stop
import Rojcpp.Judge.MessageRoundTrip
import Rojcpp.Judge.Connection
import Rojcpp.Http.Response
import Rojcpp.Http.Route
import Rojcpp.Http.Session
import Rojcpp.Sql.Pool
import Rojcpp.Judge.CommandLine
import Rojcpp.Judge.JudgerCore
import Rojcpp.Judge.MemoryLimit
import Rojcpp.Judge.ConfigRoundTrip
import Rojcpp.Judge.RunResult
import Rojcpp.Lib.Padded
import Rojcpp.Judge.CheckLines
import Rojcpp.Judge.CheckRight
import Rojcpp.Http.Dispatch
import Rojcpp.Judge.JobQueue
import Rojcpp.Judge.SocketHolders
import Rojcpp.Judge.Acquire
import Rojcpp.Tools.FastCache
import Rojcpp.Tools.CacheRefinement
import Rojcpp.Tools.CachePurge
import Rojcpp.Tinyasync.IoCtx
import Rojcpp.Tinyasync.TimeQueue
import Rojcpp.Lib.HeaderBlock
import Rojcpp.Http.StatusContent
import Rojcpp.Mediator.SidMapSer
import Rojcpp.Lib.SortedKeys
import Rojcpp.Judge.Pairing
import Rojcpp.Json.Grammar
import Rojcpp.Json.Boundaries
import Rojcpp.Json.Determined
import Rojcpp.Lib.Memory
import Rojcpp.Judge.FrameStores
import Rojcpp.Judge.Truncated
import Rojcpp.Lib.Ends
import Rojcpp.Http.RawBuffer
import Rojcpp.Http.ReceiveLoop
import Rojcpp.Sql.Marks
import Rojcpp.Sql.Fences
import Rojcpp.Tinyasync.ExpiryScan
import Rojcpp.Judge.JudgerText
import Rojcpp.Judge.ChildArgs
import Rojcpp.Backend.Summary
import Rojcpp.Lib.JsonReader
import Rojcpp.Judge.ResultJson
import Rojcpp.Http.QueryPairs
import Rojcpp.Judge.ClientSockets
import Rojcpp.Json.IndexLoops
import Rojcpp.Lib.IndexLoop
import Rojcpp.Sql.ConnectionString
import Rojcpp.Sql.ConnectionRoundTrip
import Rojcpp.Logger.LogStream
import Rojcpp.Logger.LogRecord
import Rojcpp.Logger.LogFile
import Rojcpp.Tinyasync.TimeRing
import Rojcpp.Lib.Chain
import Rojcpp.Tinyasync.ListQueue
import Rojcpp.Lib.Holder
import Rojcpp.Tinyasync.LockCore
import Rojcpp.Tinyasync.Wakeup
import Rojcpp.Sql.Rows
import Rojcpp.Judge.Exchange
import Rojcpp.Backend.Submission
import Rojcpp.Lib.Incremental
import Rojcpp.Http.HeadText
import Rojcpp.Http.Serve
import Rojcpp.Backend.Posts
import Rojcpp.Tinyasync.Readiness
import Rojcpp.Tinyasync.EndOfStream

import SimpleKit.Lib.Linked
import SimpleKit.Lib.Spans
import SimpleKit.Lib.Sorted
import SimpleKit.Lib.SortedMap
import SimpleKit.Lib.Run
import SimpleKit.Lib.Cursor
import SimpleKit.Lib.HeapOrder
import SimpleKit.Lib.Framing
import SimpleKit.Lib.Bytes
import SimpleKit.Lib.Linking
import SimpleKit.Key
import SimpleKit.Shash.Model
import SimpleKit.Shash.Chains
import SimpleKit.Shash.Rehash
import SimpleKit.Shash.Iterate
import SimpleKit.Shash.Refine
import SimpleKit.Shash.Complete
import SimpleKit.Slist.Model
import SimpleKit.Slist.Levels
import SimpleKit.Slist.Insert
import SimpleKit.Slist.Erase
import SimpleKit.Slist.Refine
import SimpleKit.Timer.Model
import SimpleKit.Timer.Heap
import SimpleKit.Timer.Refine
import SimpleKit.Io.Buffer
import SimpleKit.Io.Stream
import SimpleKit.Io.Backlog
import SimpleKit.Head
import SimpleKit.Rpc.Frame
import SimpleKit.Rpc.Client
import SimpleKit.Rpc.Choose
import SimpleKit.Rpc.ClientInv
import SimpleKit.Rpc.ClientMoves
import SimpleKit.Rpc.ClientReset
import SimpleKit.Rpc.ClientSend
import SimpleKit.Rpc.ClientRecords
import SimpleKit.Rpc.ClientUpstreams
import SimpleKit.Rpc.ClientEvents
import SimpleKit.Rpc.ClientRun
import SimpleKit.Rpc.Server
import SimpleKit.Rpc.ServerInv
import SimpleKit.Rpc.ServerFinish
import SimpleKit.Rpc.ServerEvents
import SimpleKit.Rpc.ServerRun
import SimpleKit.Rpc.Tables
import SimpleKit.Rpc.Progress
import SimpleKit.Rpc.Methods
import SimpleKit.Slist.Indices
import SimpleKit.Sconfig.Model
import SimpleKit.Sconfig.Load
import SimpleKit.Sconfig.Refine
import SimpleKit.Lib.Directory
import SimpleKit.Slog.Model
import SimpleKit.Slog.Rotate
import SimpleKit.Io.Loop
import SimpleKit.Io.LoopSpec
import SimpleKit.Io.LoopRefine
import SimpleKit.Shash.KeepUp
import SimpleKit.Sconfig.Checked
import SimpleKit.Sconfig.Grammar
import SimpleKit.Sconfig.Inside
import SimpleKit.Sconfig.LastLine
import SimpleKit.Io.BufferMemory
import SimpleKit.Timer.Pass
import SimpleKit.Timer.PassOrder
import SimpleKit.Timer.Due
import SimpleKit.Timer.Deadline
import SimpleKit.Timer.Sleep
import SimpleKit.Lib.Sweep
import SimpleKit.Slist.Iterate
import SimpleKit.Lib.Pipe
import SimpleKit.Rpc.Net
import SimpleKit.Rpc.NetView
import SimpleKit.Rpc.Served
import SimpleKit.Rpc.ClientKeeps
import SimpleKit.Rpc.Tells
import SimpleKit.Rpc.Periods
import SimpleKit.Rpc.NetAlone
import SimpleKit.Rpc.NetInv
import SimpleKit.Rpc.NetRun
import SimpleKit.Rpc.Sends
import SimpleKit.Rpc.Executions
import SimpleKit.Deque.Model
import SimpleKit.Deque.Refine
import SimpleKit.KeyOrder
import SimpleKit.Io.Detached
import SimpleKit.Io.Registration
import SimpleKit.Lib.Guard
import SimpleKit.Slog.Syscalls
import SimpleKit.Slog.Exclusion
import SimpleKit.Slog.Sections
import SimpleKit.Slog.Lines
import SimpleKit.Io.Traffic
import SimpleKit.Io.Sockets
import SimpleKit.Io.SfdSpec
import SimpleKit.Io.SocketsTrace
import SimpleKit.Io.SocketsInv
import SimpleKit.Io.SocketsUse
import SimpleKit.Io.SocketsOps
import SimpleKit.Io.SocketsRun
import SimpleKit.Io.SocketsSafe
import SimpleKit.Lib.Decimal
import SimpleKit.Slog.Decode
import SimpleKit.Sconfig.Written
import SimpleKit.Slog.Fresh

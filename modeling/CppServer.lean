import CppServer.Lib.Blocks
import CppServer.Lib.Bytes
import CppServer.Lib.Choice
import CppServer.Lib.CircularBuffer
import CppServer.Lib.Decimal
import CppServer.Lib.Deflate
import CppServer.Lib.Framing
import CppServer.Lib.Monitor
import CppServer.Lib.OrderedMap
import CppServer.Lib.Ownership
import CppServer.Lib.Records
import CppServer.Lib.Residues
import CppServer.Lib.Rewrite
import CppServer.Lib.Run
import CppServer.Lib.Slots
import CppServer.Lib.Swap
import CppServer.Lib.ThreadKey
import CppServer.Lib.Traced
import CppServer.Lib.Window
import CppServer.Lib.Words
import CppServer.Net.Buffer
import CppServer.Net.BufferInts
import CppServer.Net.BufferStream
import CppServer.Net.ByteQueue
import CppServer.Net.LengthHeaderCodec
import CppServer.Net.ZlibStream
import CppServer.Gate.Broadcast
import CppServer.Gate.Buckets
import CppServer.Gate.Container
import CppServer.Gate.Entities
import CppServer.Gate.Removal
import CppServer.Gate.Sessions
import CppServer.Public.RedisValue
import CppServer.Public.Replay
import CppServer.Games.Poker.Hand
import CppServer.Games.S13s.Group
import CppServer.Games.S13s.Hand
import CppServer.Games.S13s.Trees
import CppServer.Rand.Exposed
import CppServer.Rand.Shuffle
import CppServer.Rand.Weight
import CppServer.Sudoku.Stat
import CppServer.Threads.BlockingQueue
import CppServer.Threads.LocalSingleton
import CppServer.Threads.RoundRobin
import CppServer.Threads.SpinLock
import CppServer.Trace.TraceMsg
import CppServer.Zookeeper.LockGuard
import CppServer.Https.Aes
import CppServer.Https.AesBounds
import CppServer.Https.AesKey
import CppServer.Https.Des
import CppServer.Https.DesBounds
import CppServer.Https.HtmlCodec
import CppServer.Https.HtmlEncode
import CppServer.Games.S13s.Layout

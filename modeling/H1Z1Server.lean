import H1Z1Server.Library.ByteOrder
import H1Z1Server.Library.MemoryBlock
import H1Z1Server.Library.MachineInt
import H1Z1Server.Stream.Buffer
import H1Z1Server.Stream.Writer
import H1Z1Server.Stream.Reader
import H1Z1Server.Stream.Appending
import H1Z1Server.Stream.Operations
import H1Z1Server.Stream.Consuming
import H1Z1Server.Stream.LengthPrefix
import H1Z1Server.Stream.RoundTrip
import H1Z1Server.Stream.Acceptance
import H1Z1Server.Library.RC4
import H1Z1Server.SonyNetworking.CRC4
import H1Z1Server.SonyNetworking.Overrun
import H1Z1Server.SonyNetworking.Forging
import H1Z1Server.SonyNetworking.Cipher
import H1Z1Server.SonyNetworking.Histories
import H1Z1Server.SonyNetworking.StreamConverter
import H1Z1Server.Library.RefTable
import H1Z1Server.LuaSystem.LuaNetSocket
import H1Z1Server.LuaSystem.Connections
import H1Z1Server.LuaSystem.Hearing
import H1Z1Server.LoginServer.Packets
import H1Z1Server.Stream.Terminated
import H1Z1Server.LoginServer.Entries
import H1Z1Server.LoginServer.Serializing
import H1Z1Server.LoginServer.Deserializing
import H1Z1Server.LoginServer.PacketRoundTrip
import H1Z1Server.LoginServer.Server
import H1Z1Server.LoginServer.Dispatch
import H1Z1Server.LuaSystem.Surroundings
import H1Z1Server.LoginServer.Answering
import H1Z1Server.LoginServer.Surviving
import H1Z1Server.Library.TriColour
import H1Z1Server.Lua.State
import H1Z1Server.Lua.Marking
import H1Z1Server.Lua.Collector
import H1Z1Server.Lua.Advancing
import H1Z1Server.Lua.Atomic
import H1Z1Server.Lua.Sweeping
import H1Z1Server.Lua.Registry
import H1Z1Server.Lua.Receiving
import H1Z1Server.Stream.Containing
import H1Z1Server.Stream.StringWrites
import H1Z1Server.LoginServer.PacketSize
import H1Z1Server.Library.Outcome
import H1Z1Server.Stream.AutoBuffering
import H1Z1Server.Stream.WriterRuns
import H1Z1Server.Stream.Scanning
import H1Z1Server.Stream.ReaderRuns
import H1Z1Server.LoginServer.Accounting
import H1Z1Server.Library.Lifecycle
import H1Z1Server.LuaSystem.LuaManager
import H1Z1Server.ServerHost.Main
import H1Z1Server.ServerHost.Rounds
import H1Z1Server.ServerHost.Hosting
import H1Z1Server.ServerHost.Configuring
import H1Z1Server.Stream.Bounds
import H1Z1Server.Stream.IndexedReads
import H1Z1Server.Stream.Patching
import H1Z1Server.Stream.Resizing
import H1Z1Server.Stream.CountedStrings
import H1Z1Server.LuaSystem.NumberWrites
import H1Z1Server.LuaSystem.ReadingBack
import H1Z1Server.Stream.WideStrings
import H1Z1Server.Stream.WideEncoding
import H1Z1Server.Sockets.Handlers
import H1Z1Server.Lua.Api
import H1Z1Server.Sockets.Dispatch
import H1Z1Server.Sockets.HandlerIndices
import H1Z1Server.Sockets.ListenThread
import H1Z1Server.LuaSystem.TableReader
import H1Z1Server.LuaSystem.TableLookups
import H1Z1Server.LuaSystem.Execution
import H1Z1Server.LuaSystem.ExecutionRuns
import H1Z1Server.LuaSystem.EventHandling
import H1Z1Server.FileSystem.Directories
import H1Z1Server.Library.ClampedCounter
import H1Z1Server.Sockets.ListenSwitch
import H1Z1Server.SonyNetworking.SBox
import H1Z1Server.Library.ReverseTables
import H1Z1Server.LoginServer.OpcodeTables
import H1Z1Server.Library.Chains
import H1Z1Server.Library.ScatterTable
import H1Z1Server.Lua.Interning
import H1Z1Server.Lua.StringTable
import H1Z1Server.Lua.Table
import H1Z1Server.Lua.NodePart
import H1Z1Server.Lua.NewKey
import H1Z1Server.Lua.Assigning
import H1Z1Server.Lua.Entries
import H1Z1Server.Lua.ArraySizes
import H1Z1Server.Lua.Rehashing
import H1Z1Server.Lua.TableRuns
import H1Z1Server.Lua.Traversing
import H1Z1Server.Lua.Boundaries
import H1Z1Server.Library.Segments
import H1Z1Server.Lua.Sorting
import H1Z1Server.Lua.Rearranging
import H1Z1Server.Lua.Ordering
import H1Z1Server.Lua.SortingTables
import H1Z1Server.Lua.Opcodes
import H1Z1Server.Lua.CodeChecker
import H1Z1Server.Lua.CheckedCode
import H1Z1Server.Library.Codec
import H1Z1Server.Lua.Chunks
import H1Z1Server.Lua.Streaming
import H1Z1Server.Lua.Dumping
import H1Z1Server.Lua.Undumping
import H1Z1Server.Library.Backtracking
import H1Z1Server.Lua.Finding
import H1Z1Server.Lua.PlainSearch
import H1Z1Server.Lua.Substituting
import H1Z1Server.Lua.Iterating
import H1Z1Server.Lua.Quoting

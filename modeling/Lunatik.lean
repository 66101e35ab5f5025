import Lunatik.Core.AsyncJob
import Lunatik.Core.BaseStack
import Lunatik.Core.BindingFrames
import Lunatik.Core.Bindings
import Lunatik.Core.Buffer
import Lunatik.Core.BufferLib
import Lunatik.Core.CollectedBuffers
import Lunatik.Core.ContextLife
import Lunatik.Core.ContextQueue
import Lunatik.Core.Crypto
import Lunatik.Core.JobRun
import Lunatik.Core.LoadChunk
import Lunatik.Core.Result
import Lunatik.Core.Submission
import Lunatik.Core.SyncJob
import Lunatik.Core.SysLua
import Lunatik.Core.UserCopy
import Lunatik.Kernel.Memory
import Lunatik.Library.Codec
import Lunatik.Library.Hoare
import Lunatik.Library.Links
import Lunatik.Library.Reachability
import Lunatik.Library.Ring
import Lunatik.Library.Scatter
import Lunatik.Library.SignedWords
import Lunatik.Library.Simulation
import Lunatik.Library.StateRuns
import Lunatik.Library.StoreHistory
import Lunatik.Library.TransitionSystem
import Lunatik.Lua.Api
import Lunatik.Lua.Call
import Lunatik.Lua.CallStack
import Lunatik.Lua.Callback
import Lunatik.Lua.CheckCode
import Lunatik.Lua.CheckReads
import Lunatik.Lua.Chunkid
import Lunatik.Lua.Code
import Lunatik.Lua.Collector
import Lunatik.Lua.Concat
import Lunatik.Lua.Dump
import Lunatik.Lua.Frame
import Lunatik.Lua.LexGrammar
import Lunatik.Lua.Lexer
import Lunatik.Lua.Ltable
import Lunatik.Lua.Mark
import Lunatik.Lua.Metamethods
import Lunatik.Lua.Mutator
import Lunatik.Lua.Number
import Lunatik.Lua.Object
import Lunatik.Lua.OpenUpval
import Lunatik.Lua.Pcall
import Lunatik.Lua.Strcoll
import Lunatik.Lua.StringTable
import Lunatik.Lua.TableAlloc
import Lunatik.Lua.TableBounds
import Lunatik.Lua.TableNext
import Lunatik.Lua.TagCache
import Lunatik.Lua.Throw
import Lunatik.Lua.Undump
import Lunatik.Lua.Vm
import Lunatik.Verified.AsyncOrder
import Lunatik.Verified.AtomicPhase
import Lunatik.Verified.BindingIndices
import Lunatik.Verified.BufferAccess
import Lunatik.Verified.BufferCalls
import Lunatik.Verified.BufferConventions
import Lunatik.Verified.BufferNew
import Lunatik.Verified.BytecodeSafety
import Lunatik.Verified.CallFrames
import Lunatik.Verified.CheckedCode
import Lunatik.Verified.ChunkNames
import Lunatik.Verified.ChunkRoundTrip
import Lunatik.Verified.CollectedBuffers
import Lunatik.Verified.CollectorInvariant
import Lunatik.Verified.CollectorSafety
import Lunatik.Verified.CollectorSteps
import Lunatik.Verified.Colours
import Lunatik.Verified.Concatenation
import Lunatik.Verified.ContextLeaks
import Lunatik.Verified.ContextOutlives
import Lunatik.Verified.CryptoBuffers
import Lunatik.Verified.DeadKeys
import Lunatik.Verified.DivisionTraps
import Lunatik.Verified.ErrorFlow
import Lunatik.Verified.FrameHeights
import Lunatik.Verified.FreshBuffers
import Lunatik.Verified.IntegerOperators
import Lunatik.Verified.Interning
import Lunatik.Verified.JobRestores
import Lunatik.Verified.LexerEnd
import Lunatik.Verified.LexerGrammar
import Lunatik.Verified.LexerTokens
import Lunatik.Verified.LexerViews
import Lunatik.Verified.ModuleReferences
import Lunatik.Verified.MutatorSteps
import Lunatik.Verified.NewObjects
import Lunatik.Verified.NumberStrings
import Lunatik.Verified.NumeralValues
import Lunatik.Verified.NumericFor
import Lunatik.Verified.OpenUpvalues
import Lunatik.Verified.Propagation
import Lunatik.Verified.References
import Lunatik.Verified.RehashSizing
import Lunatik.Verified.ResultEncoding
import Lunatik.Verified.ResultRelease
import Lunatik.Verified.ResultSoundness
import Lunatik.Verified.SharedUpvalues
import Lunatik.Verified.StackBalance
import Lunatik.Verified.StackRoom
import Lunatik.Verified.StreamReads
import Lunatik.Verified.StringOrder
import Lunatik.Verified.Submissions
import Lunatik.Verified.SubmittedBytes
import Lunatik.Verified.SweepPhase
import Lunatik.Verified.SyncJobLifetime
import Lunatik.Verified.SysLuaOwnership
import Lunatik.Verified.TableBorders
import Lunatik.Verified.TableChains
import Lunatik.Verified.TableEvents
import Lunatik.Verified.TableFailure
import Lunatik.Verified.TableLinks
import Lunatik.Verified.TableMap
import Lunatik.Verified.TableRefusals
import Lunatik.Verified.TableResize
import Lunatik.Verified.TableSizes
import Lunatik.Verified.TableStores
import Lunatik.Verified.TableTraversal
import Lunatik.Verified.TagCacheRuns
import Lunatik.Verified.TokenSequences
import Lunatik.Verified.Tricolor
import Lunatik.Verified.UndumpStream
import Lunatik.Verified.UpvalueLists
import Lunatik.Verified.UpvalueSteps
import Lunatik.Verified.UserWindow
import Lunatik.Verified.VerifierReads
import Lunatik.Verified.VmInstructions
import Lunatik.Verified.VmInvariant
import Lunatik.Verified.VmOperations
import Lunatik.Verified.VmSwitch
import Lunatik.Library.WhileLoop
import Lunatik.Lua.FullCollection
import Lunatik.Verified.FullCollection
import Lunatik.Verified.ReachableObjects

import TruellmEngine.Scheduler.Model
import TruellmEngine.Scheduler.Steps
import TruellmEngine.Scheduler.KvSlots
import TruellmEngine.Scheduler.KvMoves
import TruellmEngine.Scheduler.KvCoherence
import TruellmEngine.Scheduler.Sessions
import TruellmEngine.Scheduler.Isolation
import TruellmEngine.Scheduler.Delivery
import TruellmEngine.Scheduler.BatchCapacity
import TruellmEngine.Scheduler.LogitIndex
import TruellmEngine.Scheduler.ChunkLoop
import TruellmEngine.Scheduler.Order
import TruellmEngine.Scheduler.Progress
import TruellmEngine.Engine.DecodeLoops
import TruellmEngine.Scheduler.Streaming
import TruellmEngine.Cuda.Allocator
import TruellmEngine.Cuda.Conservation
import TruellmEngine.Cuda.Eviction
import TruellmEngine.Cuda.PoolLayout
import TruellmEngine.Lib.Interleave
import TruellmEngine.Cuda.Calls
import TruellmEngine.Cuda.Exclusive
import TruellmEngine.Cuda.CallsIsolated
import TruellmEngine.Engine.ConcurrentCalls
import TruellmEngine.Cuda.KvCells
import TruellmEngine.Cuda.KvCompression
import TruellmEngine.Cuda.Injection
import TruellmEngine.Cuda.SessionTable
import TruellmEngine.Cuda.FailureAtomicity
import TruellmEngine.Cuda.BlockCount
import TruellmEngine.Cuda.CallExits
import TruellmEngine.Cuda.SlotMapping
import TruellmEngine.Bridge.Announce
import TruellmEngine.Bridge.IpcClient
import TruellmEngine.Bridge.ReceivePath
import TruellmEngine.Bridge.Correlation
import TruellmEngine.Bridge.IpcTransport
import TruellmEngine.Bridge.ToolRegistry
import TruellmEngine.Bridge.AllowList
import TruellmEngine.Bridge.PreprocessorChain
import TruellmEngine.Bridge.GeneratorRegistry
import TruellmEngine.Bridge.SubCalls
import TruellmEngine.Bridge.Restarts
import TruellmEngine.Bridge.Launcher
import TruellmEngine.Bridge.SocketPath
import TruellmEngine.Bridge.SidecarTools
import TruellmEngine.Bridge.Registration
import TruellmEngine.Bridge.PluginPath
import TruellmEngine.Bridge.PluginFs
import TruellmEngine.Lib.FileTree
import TruellmEngine.Bridge.PluginData
import TruellmEngine.Bridge.ChainOrder
import TruellmEngine.Bridge.IpcFrames
import TruellmEngine.Bridge.PluginConfig
import TruellmEngine.Lib.Decimal
import TruellmEngine.Bridge.SubCallUsage
import TruellmEngine.Lib.Lifetime
import TruellmEngine.Bridge.NativeLoader
import TruellmEngine.Bridge.NativePlugins
import TruellmEngine.Lib.ArrayText
import TruellmEngine.Bridge.RegistryCache
import TruellmEngine.Server.ChatTemplate
import TruellmEngine.Server.ToolCalls
import TruellmEngine.Server.ContextSplit
import TruellmEngine.Server.ChatHandler
import TruellmEngine.Server.ChatUses
import TruellmEngine.Server.ModifiedMessages
import TruellmEngine.Server.AdvertisedTools
import TruellmEngine.Server.ToolGlob
import TruellmEngine.Server.AnthropicRouter
import TruellmEngine.Server.SkillGating
import TruellmEngine.Server.ToolEntries
import TruellmEngine.Server.ToolRounds
import TruellmEngine.Policy.RateLimiter
import TruellmEngine.Cuda.CapturedTensors
import TruellmEngine.Lib.Sse
import TruellmEngine.Lib.JsonText
import TruellmEngine.Lib.CanonicalJson
import TruellmEngine.Server.AnthropicReply
import TruellmEngine.Server.SseReplay
import TruellmEngine.Policy.Guardrails
import TruellmEngine.Server.CompletionsHandler
import TruellmEngine.Server.GuardedGeneration
import TruellmEngine.Cuda.FailedInjection
import TruellmEngine.Cuda.FinishReason
import TruellmEngine.Lib.Launch
import TruellmEngine.Lib.VectorQuantizer
import TruellmEngine.Cuda.VqCache
import TruellmEngine.Cuda.CodebookInit
import TruellmEngine.Lib.Records
import TruellmEngine.Cuda.KiviCodec
import TruellmEngine.Cuda.KiviRoundTrip
import TruellmEngine.Cuda.CompressionScratch
import TruellmEngine.Lib.Select
import TruellmEngine.Cuda.ScoringPass
import TruellmEngine.Lib.Strided
import TruellmEngine.Cuda.MultiGpu
import TruellmEngine.Server.ToolRoundTrip
import TruellmEngine.Cuda.ForwardScratch
import TruellmEngine.Cuda.ForwardBounds
import TruellmEngine.Lib.Overlay
import TruellmEngine.Config.Toml
import TruellmEngine.Config.Secrets
import TruellmEngine.Lib.Find
import TruellmEngine.Config.SecretScan
import TruellmEngine.Config.Schema
import TruellmEngine.Config.Load
import TruellmEngine.Config.Kinds
import TruellmEngine.Config.Fields
import TruellmEngine.Config.Overlay
import TruellmEngine.Config.PluginSettings
import TruellmEngine.Config.Loading
import TruellmEngine.Config.Numbers
import TruellmEngine.Lib.Carry
import TruellmEngine.Server.SanitizeUtf8
import TruellmEngine.Server.StreamCarry
import TruellmEngine.Server.EngineErrors
import TruellmEngine.Server.PromptBudget
import TruellmEngine.Server.MessageTranslation
import TruellmEngine.Server.ToolCallTotality
import TruellmEngine.Server.StripToolCalls
import TruellmEngine.Server.ChatStream
import TruellmEngine.Server.LiveStream
import TruellmEngine.Server.HttpServer
import TruellmEngine.Server.EmbeddedCalls
import TruellmEngine.Server.PromptTexts
import TruellmEngine.Lib.Defaults
import TruellmEngine.Lib.Occurrences
import TruellmEngine.Server.CallIds
import TruellmEngine.Server.ToolDirective
import TruellmEngine.Server.MessagesHandler
import TruellmEngine.Server.CountTokens
import TruellmEngine.Server.ResearchRoute

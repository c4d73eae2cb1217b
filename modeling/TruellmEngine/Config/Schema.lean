/-
  The configuration and its defaults (`config_schema.h`). `F` is `float`.
-/
import TruellmEngine.Config.Toml

namespace TruellmEngine.Config

structure ServerConfig where
  host : String := "127.0.0.1"
  port : UInt16 := 8080
  apiKey : String := ""
  corsOrigins : List String := ["*"]
  requestTimeoutMs : Int32 := 30000
  maxConcurrent : Int32 := 4
  tlsEnabled : Bool := false
  tlsCertFile : String := ""
  tlsKeyFile : String := ""
  enableDebugEndpoints : Bool := false

structure ModelConfig where
  path : String := ""
  hfRepo : String := ""
  hfFile : String := ""
  modelAlias : String := ""
  chatTemplate : String := "auto"
  trustRemoteCode : Bool := false

structure KvCacheConfig where
  typeK : String := "f16"
  typeV : String := "f16"
  sizeMb : Int32 := 0

variable (F : Type) [Floating F]

structure CudaInferenceConfig where
  gpuLayers : Int32 := -1
  mainGpu : Int32 := 0
  tensorSplit : List F := []
  gpuMemoryUtilization : F := 0.90
  useFlashAttentionCuda : Bool := true
  computeCapabilityMajor : Int32 := 0
  computeCapabilityMinor : Int32 := 0

structure CudaEngineConfig where
  pagedKvBlockSize : Int32 := 16
  maxNumBlocks : Int32 := 0
  maxNumSeqs : Int32 := 256
  numCudaStreams : Int32 := 3
  useFp8Kv : Bool := false
  gpuMemoryUtilization : F := 0.90
  tensorParallelSize : Int32 := 1
  enforceEager : Bool := false
  cudaGraphMaxBatchSize : Int32 := 8
  attentionLayout : String := "paged"
  useMegakernel : Bool := false
  megakernelSaveAttn : Bool := false
  megakernelSaveHidden : Bool := false

structure PresisConfig where
  enabled : Bool := true
  threshold : F := 0.85
  keepFraction : F := 0.60
  importanceLayers : Int32 := 4
  fallbackTfidf : Bool := true
  maxSeqlenForAttn : Int32 := 2048

structure ToMeConfig where
  enabled : Bool := false
  r : Int32 := 8
  startLayer : Int32 := 0
  applyAllLayers : Bool := false
  mergeMode : String := "mean"

structure FastVConfig where
  enabled : Bool := false
  startLayer : Int32 := 8
  keepRatio : F := 0.50
  importanceMetric : String := "attn_sum"

structure PyramidDropConfig where
  enabled : Bool := false
  finalKeepRatio : F := 0.30
  dropSchedule : String := "cosine"
  warmupLayers : Int32 := 4
  protectLastNTokens : Int32 := 8

structure KiviConfig where
  enabled : Bool := false
  bits : Int32 := 8
  residualLength : Int32 := 128
  keyGranularity : String := "per_channel"
  valueGranularity : String := "per_token"
  preRopeKeys : Bool := true

structure VqConfig where
  enabled : Bool := false
  codebookSize : Int32 := 256
  updateRate : F := 0.001
  residualDepth : Int32 := 1
  outlierTracing : Bool := true
  calibrationText : String := ""
  disableInSubcalls : Bool := true

structure CompressionConfig where
  enabled : Bool := false
  pipeline : String := "presis"
  presis : PresisConfig F := {}
  tome : ToMeConfig := {}
  fastv : FastVConfig F := {}
  pyramidDrop : PyramidDropConfig F := {}
  kvKivi : KiviConfig := {}
  kvVq : VqConfig F := {}

structure RlmConfig where
  enabled : Bool := false
  chunkSizeTokens : Int32 := 512
  chunkOverlapTokens : Int32 := 64
  summaryTokensPerChunk : Int32 := 32
  maxHierarchyDepth : Int32 := 1
  chunkCacheEnabled : Bool := false

structure BatchingConfig where
  enabled : Bool := false
  maxSeqs : Int32 := 8
  maxQueue : Int32 := 256
  kvUnified : Bool := true

structure ReasoningConfig where
  format : String := "auto"
  enableThinking : Bool := true

structure InferenceConfig where
  backend : String := "cpu"
  contextSize : Int32 := 4096
  batchSize : Int32 := 512
  ubatchSize : Int32 := 512
  threads : Int32 := 0
  flashAttention : Bool := true
  mmap : Bool := true
  mlock : Bool := false
  numa : String := "disabled"
  kvCache : KvCacheConfig := {}
  cuda : CudaInferenceConfig F := {}
  cudaEngine : CudaEngineConfig F := {}
  batching : BatchingConfig := {}
  compression : CompressionConfig F := {}
  rlm : RlmConfig := {}
  reasoning : ReasoningConfig := {}

structure SamplingConfig where
  temperature : F := 0.7
  topP : F := 0.95
  topK : Int32 := 40
  minP : F := 0.05
  repeatPenalty : F := 1.1
  frequencyPenalty : F := 0.0
  presencePenalty : F := 0.0
  maxTokens : Int32 := 2048
  seed : Int32 := -1
  stop : List String := []

structure LoggingConfig where
  level : String := "info"
  format : String := "text"
  file : String := ""
  timestamps : Bool := true
  sourceLocation : Bool := false

structure GpuDeviceConfig where
  enabled : Bool := true
  deviceId : Int32 := 0
  nameHint : String := ""
  vramCapacityGb : F := 0.0
  backendApi : String := "cuda"

structure OffloadConfig where
  useGpuVram : Bool := true
  useSystemRam : Bool := true
  useSharedMemory : Bool := false
  gpuLayers : Int32 := -1
  vramBudgetFraction : F := 1.0

structure GuardrailsConfig where
  preset : String := "balanced"
  maxModelSizeGb : F := 0.0
  allowOvercommit : Bool := false
  ramFractionLimit : F := 0.0
  vramFractionLimit : F := 0.0

structure HardwareConfig where
  cpuThreads : Int32 := 0
  cpuAffinity : List Int32 := []
  maxRamGb : F := 0.0
  resourceMonitorIntervalMs : Int32 := 1000
  gpu : GpuDeviceConfig F := {}
  offload : OffloadConfig F := {}
  guardrails : GuardrailsConfig F := {}

structure HarmonyConfig where
  enabled : Bool := false
  version : String := "latest"

structure RuntimeExtensionConfig where
  name : String := ""
  enabled : Bool := false
  version : String := "latest"

structure RuntimeConfig where
  engine : String := "cpu-llama-cpp"
  engineVersion : String := "latest"
  autoUpdate : Bool := false
  updateChannel : String := "stable"
  harmony : HarmonyConfig := {}
  extensions : List RuntimeExtensionConfig := []

structure PluginConfig where
  enabled : Bool := false
  pythonPath : String := "python3"
  pluginDirs : List String := []
  socketPath : String := ""
  sidecarTimeoutMs : Int32 := 5000
  restartOnCrash : Bool := true
  maxRestartAttempts : Int32 := 3
  dataDir : String := ""
  toolMaxRounds : Int32 := 5
  contextSplitEnabled : Bool := true
  contextSplitStrategy : String := "summarize"
  contextSplitTriggerFraction : F := 0.5
  contextSplitTruncateFraction : F := 0.60
  contextSplitAutoChunkFraction : F := 0.55
  contextSplitChunkTokens : Int32 := 0
  contextSplitMaxChunks : Int32 := 8
  contextSplitSummaryTokens : Int32 := 300
  /-- An `unordered_map`. -/
  settings : String → Option String := fun _ => none

structure TrueLLMConfig where
  profile : String := ""
  server : ServerConfig := {}
  model : ModelConfig := {}
  inference : InferenceConfig F := {}
  sampling : SamplingConfig F := {}
  logging : LoggingConfig := {}
  hardware : HardwareConfig F := {}
  runtime : RuntimeConfig := {}
  plugins : PluginConfig F := {}

end TruellmEngine.Config

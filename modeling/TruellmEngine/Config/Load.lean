/-
  `truellm::config::load` (`config.cpp`, `profile.cpp`): the defaults, a profile, and the
  document over them, section by section.

  The document is parsed already. Left out are the log lines.
-/
import TruellmEngine.Config.Schema
import TruellmEngine.Config.Secrets
import TruellmEngine.Lib.Stores

namespace TruellmEngine.Config

open Lib

variable {D F : Type} [Floating F] [Doubles D F] (env : String → Option String) (int : GetInt)

/-! ## Helpers -/

/-- The default is resolved as well. -/
def findStr (t : Toml D) (key dflt : String) : String :=
  resolveSecrets env (t.findOr Toml.getString key dflt)

/-- `find_or<std::string>` -/
def findText (t : Toml D) (key dflt : String) : String := t.findOr Toml.getString key dflt

def findBool (t : Toml D) (key : String) (dflt : Bool) : Bool := t.findOr Toml.getBool key dflt

def findInt (t : Toml D) (key : String) (dflt : Int32) : Int32 :=
  t.findOr (Toml.getInt int) key dflt

/-- `static_cast<float>(find_or<double>(t, key, static_cast<double>(dflt)))` -/
def findFloat (t : Toml D) (key : String) (dflt : F) : F :=
  Doubles.narrow (t.findOr Toml.getDouble key (Doubles.widen dflt))

/-- `find_or<std::vector<std::string>>` -/
def findStrings (t : Toml D) (key : String) (dflt : List String) : List String :=
  t.findOr (Toml.getVector Toml.getString) key dflt

/-- `find_or<std::vector<int>>` -/
def findInts (t : Toml D) (key : String) (dflt : List Int32) : List Int32 :=
  t.findOr (Toml.getVector (Toml.getInt int)) key dflt

/-- `find_or<std::vector<float>>` -/
def findFloats (t : Toml D) (key : String) (dflt : List F) : List F :=
  t.findOr (Toml.getVector fun v => v.getDouble.map Doubles.narrow) key dflt

/-- `static_cast<uint16_t>(find_or<int>(t, key, dflt))` -/
def findPort (t : Toml D) (key : String) (dflt : UInt16) : UInt16 :=
  (findInt int t key (Int32.ofNat dflt.toNat)).toUInt32.toUInt16

/-- `if (!v.contains(key)) return;`, and the section otherwise. -/
def inSection {α : Type} (v : Toml D) (key : String) (out : α)
    (parse : Toml D → Except ConfigError α) : Except ConfigError α := do
  if ← v.contains key then parse (← v.find key) else pure out

/-! ## Sections -/

def parseServer (root : Toml D) (out : ServerConfig) : Except ConfigError ServerConfig :=
  inSection root "server" out fun t => pure { out with
    host := findStr env t "host" out.host
    port := findPort int t "port" out.port
    apiKey := findStr env t "api_key" out.apiKey
    corsOrigins := findStrings t "cors_origins" out.corsOrigins
    requestTimeoutMs := findInt int t "request_timeout_ms" out.requestTimeoutMs
    maxConcurrent := findInt int t "max_concurrent" out.maxConcurrent
    tlsEnabled := findBool t "tls_enabled" out.tlsEnabled
    tlsCertFile := findStr env t "tls_cert_file" out.tlsCertFile
    tlsKeyFile := findStr env t "tls_key_file" out.tlsKeyFile
    enableDebugEndpoints := findBool t "enable_debug_endpoints" out.enableDebugEndpoints }

def parseModel (root : Toml D) (out : ModelConfig) : Except ConfigError ModelConfig :=
  inSection root "model" out fun t => pure { out with
    path := findStr env t "path" out.path
    hfRepo := findStr env t "hf_repo" out.hfRepo
    hfFile := findStr env t "hf_file" out.hfFile
    modelAlias := findStr env t "alias" out.modelAlias
    chatTemplate := findStr env t "chat_template" out.chatTemplate
    trustRemoteCode := findBool t "trust_remote_code" out.trustRemoteCode }

def parseKvCache (inf : Toml D) (out : KvCacheConfig) : Except ConfigError KvCacheConfig :=
  inSection inf "kv_cache" out fun t => pure { out with
    typeK := findStr env t "type_k" out.typeK
    typeV := findStr env t "type_v" out.typeV
    sizeMb := findInt int t "size_mb" out.sizeMb }

def parseCudaInference (inf : Toml D) (out : CudaInferenceConfig F) :
    Except ConfigError (CudaInferenceConfig F) :=
  inSection inf "cuda" out fun t => pure { out with
    gpuLayers := findInt int t "gpu_layers" out.gpuLayers
    mainGpu := findInt int t "main_gpu" out.mainGpu
    tensorSplit := findFloats t "tensor_split" out.tensorSplit
    gpuMemoryUtilization := findFloat t "gpu_memory_utilization" out.gpuMemoryUtilization
    useFlashAttentionCuda := findBool t "use_flash_attention_cuda" out.useFlashAttentionCuda
    computeCapabilityMajor := findInt int t "compute_capability_major" out.computeCapabilityMajor
    computeCapabilityMinor :=
      findInt int t "compute_capability_minor" out.computeCapabilityMinor }

def parseCudaEngine (inf : Toml D) (out : CudaEngineConfig F) :
    Except ConfigError (CudaEngineConfig F) :=
  inSection inf "cuda_engine" out fun t => pure { out with
    pagedKvBlockSize := findInt int t "paged_kv_block_size" out.pagedKvBlockSize
    maxNumBlocks := findInt int t "max_num_blocks" out.maxNumBlocks
    maxNumSeqs := findInt int t "max_num_seqs" out.maxNumSeqs
    numCudaStreams := findInt int t "num_cuda_streams" out.numCudaStreams
    useFp8Kv := findBool t "use_fp8_kv" out.useFp8Kv
    gpuMemoryUtilization := findFloat t "gpu_memory_utilization" out.gpuMemoryUtilization
    tensorParallelSize := findInt int t "tensor_parallel_size" out.tensorParallelSize
    enforceEager := findBool t "enforce_eager" out.enforceEager
    cudaGraphMaxBatchSize := findInt int t "cuda_graph_max_batch_size" out.cudaGraphMaxBatchSize
    attentionLayout := findStr env t "attention_layout" out.attentionLayout }

def parseBatching (inf : Toml D) (out : BatchingConfig) : Except ConfigError BatchingConfig :=
  inSection inf "batching" out fun b => pure { out with
    enabled := findBool b "enabled" out.enabled
    maxSeqs := findInt int b "max_seqs" out.maxSeqs
    maxQueue := findInt int b "max_queue" out.maxQueue
    kvUnified := findBool b "kv_unified" out.kvUnified }

def parsePresis (c : Toml D) (pr : PresisConfig F) : Except ConfigError (PresisConfig F) :=
  inSection c "presis" pr fun p => pure { pr with
    enabled := findBool p "enabled" pr.enabled
    threshold := findFloat p "threshold" pr.threshold
    keepFraction := findFloat p "keep_fraction" pr.keepFraction
    importanceLayers := findInt int p "importance_layers" pr.importanceLayers
    fallbackTfidf := findBool p "fallback_tfidf" pr.fallbackTfidf
    maxSeqlenForAttn := findInt int p "max_seqlen_for_attn" pr.maxSeqlenForAttn }

def parseToMe (c : Toml D) (tm : ToMeConfig) : Except ConfigError ToMeConfig :=
  inSection c "tome" tm fun p => pure { tm with
    enabled := findBool p "enabled" tm.enabled
    r := findInt int p "r" tm.r
    startLayer := findInt int p "start_layer" tm.startLayer
    applyAllLayers := findBool p "apply_all_layers" tm.applyAllLayers
    mergeMode := findStr env p "merge_mode" tm.mergeMode }

def parseFastV (c : Toml D) (fv : FastVConfig F) : Except ConfigError (FastVConfig F) :=
  inSection c "fastv" fv fun p => pure { fv with
    enabled := findBool p "enabled" fv.enabled
    startLayer := findInt int p "start_layer" fv.startLayer
    keepRatio := findFloat p "keep_ratio" fv.keepRatio
    importanceMetric := findStr env p "importance_metric" fv.importanceMetric }

def parsePyramidDrop (c : Toml D) (pd : PyramidDropConfig F) :
    Except ConfigError (PyramidDropConfig F) :=
  inSection c "pyramid_drop" pd fun p => pure { pd with
    enabled := findBool p "enabled" pd.enabled
    finalKeepRatio := findFloat p "final_keep_ratio" pd.finalKeepRatio
    dropSchedule := findStr env p "drop_schedule" pd.dropSchedule
    warmupLayers := findInt int p "warmup_layers" pd.warmupLayers
    protectLastNTokens := findInt int p "protect_last_n_tokens" pd.protectLastNTokens }

def parseKvKivi (c : Toml D) (ki : KiviConfig) : Except ConfigError KiviConfig :=
  inSection c "kv_kivi" ki fun p => pure { ki with
    enabled := findBool p "enabled" ki.enabled
    bits := findInt int p "bits" ki.bits
    residualLength := findInt int p "residual_length" ki.residualLength
    keyGranularity := findStr env p "key_granularity" ki.keyGranularity
    valueGranularity := findStr env p "value_granularity" ki.valueGranularity
    preRopeKeys := findBool p "pre_rope_keys" ki.preRopeKeys }

def parseKvVq (c : Toml D) (vq : VqConfig F) : Except ConfigError (VqConfig F) :=
  inSection c "kv_vq" vq fun p => pure { vq with
    enabled := findBool p "enabled" vq.enabled
    codebookSize := findInt int p "codebook_size" vq.codebookSize
    updateRate := findFloat p "update_rate" vq.updateRate
    residualDepth := findInt int p "residual_depth" vq.residualDepth
    outlierTracing := findBool p "outlier_tracing" vq.outlierTracing
    calibrationText := findStr env p "calibration_text" vq.calibrationText
    disableInSubcalls := findBool p "disable_in_subcalls" vq.disableInSubcalls }

def parseCompression (inf : Toml D) (out : CompressionConfig F) :
    Except ConfigError (CompressionConfig F) :=
  inSection inf "compression" out fun c => do
    let presis ← parsePresis int c out.presis
    let tome ← parseToMe env int c out.tome
    let fastv ← parseFastV env int c out.fastv
    let pyramidDrop ← parsePyramidDrop env int c out.pyramidDrop
    let kvKivi ← parseKvKivi env int c out.kvKivi
    let kvVq ← parseKvVq env int c out.kvVq
    pure {
      enabled := findBool c "enabled" out.enabled
      pipeline := findStr env c "pipeline" out.pipeline
      presis := presis
      tome := tome
      fastv := fastv
      pyramidDrop := pyramidDrop
      kvKivi := kvKivi
      kvVq := kvVq }

def parseRlm (inf : Toml D) (rlm : RlmConfig) : Except ConfigError RlmConfig :=
  inSection inf "recursive_lm" rlm fun r => pure { rlm with
    enabled := findBool r "enabled" rlm.enabled
    chunkSizeTokens := findInt int r "chunk_size_tokens" rlm.chunkSizeTokens
    chunkOverlapTokens := findInt int r "chunk_overlap_tokens" rlm.chunkOverlapTokens
    summaryTokensPerChunk := findInt int r "summary_tokens_per_chunk" rlm.summaryTokensPerChunk
    maxHierarchyDepth := findInt int r "max_hierarchy_depth" rlm.maxHierarchyDepth
    chunkCacheEnabled := findBool r "chunk_cache_enabled" rlm.chunkCacheEnabled }

def parseReasoning (inf : Toml D) (rs : ReasoningConfig) : Except ConfigError ReasoningConfig :=
  inSection inf "reasoning" rs fun r => pure { rs with
    format := findText r "format" rs.format
    enableThinking := findBool r "enable_thinking" rs.enableThinking }

def parseInference (root : Toml D) (out : InferenceConfig F) :
    Except ConfigError (InferenceConfig F) :=
  inSection root "inference" out fun t => do
    let kvCache ← parseKvCache env int t out.kvCache
    let cuda ← parseCudaInference int t out.cuda
    let cudaEngine ← parseCudaEngine env int t out.cudaEngine
    let batching ← parseBatching int t out.batching
    let compression ← parseCompression env int t out.compression
    let rlm ← parseRlm int t out.rlm
    let reasoning ← parseReasoning t out.reasoning
    pure {
      backend := findStr env t "backend" out.backend
      contextSize := findInt int t "context_size" out.contextSize
      batchSize := findInt int t "batch_size" out.batchSize
      ubatchSize := findInt int t "ubatch_size" out.ubatchSize
      threads := findInt int t "threads" out.threads
      flashAttention := findBool t "flash_attention" out.flashAttention
      mmap := findBool t "mmap" out.mmap
      mlock := findBool t "mlock" out.mlock
      numa := findStr env t "numa" out.numa
      kvCache := kvCache
      cuda := cuda
      cudaEngine := cudaEngine
      batching := batching
      compression := compression
      rlm := rlm
      reasoning := reasoning }

def parseSampling (root : Toml D) (out : SamplingConfig F) :
    Except ConfigError (SamplingConfig F) :=
  inSection root "sampling" out fun t => pure { out with
    temperature := findFloat t "temperature" out.temperature
    topP := findFloat t "top_p" out.topP
    topK := findInt int t "top_k" out.topK
    minP := findFloat t "min_p" out.minP
    repeatPenalty := findFloat t "repeat_penalty" out.repeatPenalty
    frequencyPenalty := findFloat t "frequency_penalty" out.frequencyPenalty
    presencePenalty := findFloat t "presence_penalty" out.presencePenalty
    maxTokens := findInt int t "max_tokens" out.maxTokens
    seed := findInt int t "seed" out.seed
    stop := findStrings t "stop" out.stop }

def parseLogging (root : Toml D) (out : LoggingConfig) : Except ConfigError LoggingConfig :=
  inSection root "logging" out fun t => pure { out with
    level := findStr env t "level" out.level
    format := findStr env t "format" out.format
    file := findStr env t "file" out.file
    timestamps := findBool t "timestamps" out.timestamps
    sourceLocation := findBool t "source_location" out.sourceLocation }

def parseGpu (hw : Toml D) (out : GpuDeviceConfig F) : Except ConfigError (GpuDeviceConfig F) :=
  inSection hw "gpu" out fun t => pure { out with
    enabled := findBool t "enabled" out.enabled
    deviceId := findInt int t "device_id" out.deviceId
    nameHint := findStr env t "name_hint" out.nameHint
    vramCapacityGb := findFloat t "vram_capacity_gb" out.vramCapacityGb
    backendApi := findStr env t "backend_api" out.backendApi }

def parseOffload (hw : Toml D) (out : OffloadConfig F) : Except ConfigError (OffloadConfig F) :=
  inSection hw "offload" out fun t => pure { out with
    useGpuVram := findBool t "use_gpu_vram" out.useGpuVram
    useSystemRam := findBool t "use_system_ram" out.useSystemRam
    useSharedMemory := findBool t "use_shared_memory" out.useSharedMemory
    gpuLayers := findInt int t "gpu_layers" out.gpuLayers
    vramBudgetFraction := findFloat t "vram_budget_fraction" out.vramBudgetFraction }

def parseGuardrails (hw : Toml D) (out : GuardrailsConfig F) :
    Except ConfigError (GuardrailsConfig F) :=
  inSection hw "guardrails" out fun t => pure { out with
    preset := findStr env t "preset" out.preset
    maxModelSizeGb := findFloat t "max_model_size_gb" out.maxModelSizeGb
    allowOvercommit := findBool t "allow_overcommit" out.allowOvercommit
    ramFractionLimit := findFloat t "ram_fraction_limit" out.ramFractionLimit
    vramFractionLimit := findFloat t "vram_fraction_limit" out.vramFractionLimit }

def parseHardware (root : Toml D) (out : HardwareConfig F) :
    Except ConfigError (HardwareConfig F) :=
  inSection root "hardware" out fun t => do
    let gpu ← parseGpu env int t out.gpu
    let offload ← parseOffload int t out.offload
    let guardrails ← parseGuardrails env t out.guardrails
    pure {
      cpuThreads := findInt int t "cpu_threads" out.cpuThreads
      cpuAffinity := findInts int t "cpu_affinity" out.cpuAffinity
      maxRamGb := findFloat t "max_ram_gb" out.maxRamGb
      resourceMonitorIntervalMs :=
        findInt int t "resource_monitor_interval_ms" out.resourceMonitorIntervalMs
      gpu := gpu
      offload := offload
      guardrails := guardrails }

def parseHarmony (rt : Toml D) (out : HarmonyConfig) : Except ConfigError HarmonyConfig :=
  inSection rt "harmony" out fun t => pure { out with
    enabled := findBool t "enabled" out.enabled
    version := findStr env t "version" out.version }

def parseRuntimeExtensions (rt : Toml D) (out : List RuntimeExtensionConfig) :
    Except ConfigError (List RuntimeExtensionConfig) :=
  inSection rt "extensions" out fun arr =>
    match arr with
    | .array items => pure (out ++ items.map fun item => {
        name := findStr env item "name" ""
        enabled := findBool item "enabled" false
        version := findStr env item "version" "latest" })
    | _ => pure out

def parseRuntime (root : Toml D) (out : RuntimeConfig) : Except ConfigError RuntimeConfig :=
  inSection root "runtime" out fun t => do
    let harmony ← parseHarmony env t out.harmony
    let extensions ← parseRuntimeExtensions env t out.extensions
    pure {
      engine := findStr env t "engine" out.engine
      engineVersion := findStr env t "engine_version" out.engineVersion
      autoUpdate := findBool t "auto_update" out.autoUpdate
      updateChannel := findStr env t "update_channel" out.updateChannel
      harmony := harmony
      extensions := extensions }

/-! ## Plugin settings -/

/-- `prefix.empty() ? k : prefix + "." + k` -/
def joinKey (pre key : String) : String := if pre = "" then key else pre ++ "." ++ key

/-- The text of a scalar. Arrays and dates have none. -/
def settingText : Toml D → Option String
  | .string s => some (resolveSecrets env s)
  | .integer i => some (toString i.toInt)
  | .boolean b => some (if b then "true" else "false")
  | .floating d => some (Doubles.text d)
  | _ => none

mutual

/-- The stores of `walk`, in order. -/
def walk (pre : String) : Toml D → List (String × String)
  | .table entries => walkEntries pre entries
  | _ => []

def walkEntries (pre : String) : List (String × Toml D) → List (String × String)
  | [] => []
  | (k, v) :: rest =>
    (settingText env v).elim (walk (joinKey pre k) v) (fun text => [(joinKey pre k, text)]) ++
      walkEntries pre rest

end

def parsePlugins (root : Toml D) (out : PluginConfig F) : Except ConfigError (PluginConfig F) :=
  inSection root "plugins" out fun t => do
    let settings ← inSection t "settings" out.settings fun st =>
      pure (storeAll ((walk env "" st).map fun s => (s.1, some s.2)) out.settings)
    pure {
      enabled := findBool t "enabled" out.enabled
      pythonPath := findStr env t "python_path" out.pythonPath
      pluginDirs := findStrings t "plugin_dirs" out.pluginDirs
      socketPath := findStr env t "socket_path" out.socketPath
      sidecarTimeoutMs := findInt int t "sidecar_timeout_ms" out.sidecarTimeoutMs
      restartOnCrash := findBool t "restart_on_crash" out.restartOnCrash
      maxRestartAttempts := findInt int t "max_restart_attempts" out.maxRestartAttempts
      dataDir := findStr env t "data_dir" out.dataDir
      toolMaxRounds := findInt int t "tool_max_rounds" out.toolMaxRounds
      contextSplitEnabled := findBool t "context_split_enabled" out.contextSplitEnabled
      contextSplitStrategy := findText t "context_split_strategy" out.contextSplitStrategy
      contextSplitTriggerFraction :=
        findFloat t "context_split_trigger_fraction" out.contextSplitTriggerFraction
      contextSplitTruncateFraction :=
        findFloat t "context_split_truncate_fraction" out.contextSplitTruncateFraction
      contextSplitAutoChunkFraction :=
        findFloat t "context_split_auto_chunk_fraction" out.contextSplitAutoChunkFraction
      contextSplitChunkTokens :=
        findInt int t "context_split_chunk_tokens" out.contextSplitChunkTokens
      contextSplitMaxChunks := findInt int t "context_split_max_chunks" out.contextSplitMaxChunks
      contextSplitSummaryTokens :=
        findInt int t "context_split_summary_tokens" out.contextSplitSummaryTokens
      settings := settings }

/-! ## Profiles -/

def applyLocalCpu (cfg : TrueLLMConfig F) : TrueLLMConfig F :=
  { cfg with
    server := { cfg.server with maxConcurrent := 2 }
    inference := { cfg.inference with
      backend := "cpu", contextSize := 4096, threads := 0, mmap := true, mlock := false }
    sampling := { cfg.sampling with maxTokens := 1024 }
    hardware := { cfg.hardware with
      guardrails := { cfg.hardware.guardrails with preset := "balanced" } }
    runtime := { cfg.runtime with engine := "cpu-llama-cpp" }
    logging := { cfg.logging with level := "info", format := "text" } }

def applyWorkstation (cfg : TrueLLMConfig F) : TrueLLMConfig F :=
  { cfg with
    server := { cfg.server with maxConcurrent := 4 }
    inference := { cfg.inference with
      backend := "cuda", contextSize := 8192, threads := 0, flashAttention := true }
    hardware := { cfg.hardware with
      gpu := { cfg.hardware.gpu with enabled := true }
      offload := { cfg.hardware.offload with
        useGpuVram := true, useSystemRam := true, gpuLayers := -1 }
      guardrails := { cfg.hardware.guardrails with preset := "balanced" } }
    runtime := { cfg.runtime with engine := "cuda12-llama-cpp" }
    logging := { cfg.logging with level := "info", format := "text" } }

def applyServer (cfg : TrueLLMConfig F) : TrueLLMConfig F :=
  { cfg with
    server := { cfg.server with host := "0.0.0.0", maxConcurrent := 8 }
    inference := { cfg.inference with
      backend := "cuda", contextSize := 32768, threads := 0, flashAttention := true
      mlock := true }
    hardware := { cfg.hardware with
      guardrails := { cfg.hardware.guardrails with preset := "strict" } }
    runtime := { cfg.runtime with engine := "cuda12-llama-cpp" }
    logging := { cfg.logging with level := "warn", format := "json", timestamps := true } }

/-- An unknown preset changes the name only. -/
def applyProfile (cfg : TrueLLMConfig F) (presetName : String) : TrueLLMConfig F :=
  let cfg :=
    if presetName = "local-cpu" then applyLocalCpu cfg
    else if presetName = "workstation" then applyWorkstation cfg
    else if presetName = "server" then applyServer cfg
    else cfg
  { cfg with profile := presetName }

/-! ## Loading -/

/-- The message, empty if the configuration is valid. -/
def validate (cfg : TrueLLMConfig F) : String :=
  let backend := cfg.inference.backend
  let kvK := cfg.inference.kvCache.typeK
  let kvV := cfg.inference.kvCache.typeV
  let logLevel := cfg.logging.level
  let logFmt := cfg.logging.format
  let gp := cfg.hardware.guardrails.preset
  let vram := cfg.hardware.offload.vramBudgetFraction
  let eng := cfg.runtime.engine
  let ch := cfg.runtime.updateChannel
  if cfg.server.port = 0 then "server.port must be 1–65535"
  else if cfg.server.requestTimeoutMs < 0 then "server.request_timeout_ms must be >= 0"
  else if cfg.server.maxConcurrent < 1 then "server.max_concurrent must be >= 1"
  else if cfg.inference.contextSize < 0 then "inference.context_size must be >= 0"
  else if cfg.inference.batchSize < 1 then "inference.batch_size must be >= 1"
  else if backend ∉ ["cpu", "ggml", "cuda"] then
    "inference.backend '" ++ backend ++ "' is not recognised (cpu|ggml|cuda)"
  else if kvK ∉ ["f16", "q8_0", "q4_0"] then
    "inference.kv_cache.type_k '" ++ kvK ++ "' is not recognised (f16|q8_0|q4_0)"
  else if kvV ∉ ["f16", "q8_0", "q4_0"] then
    "inference.kv_cache.type_v '" ++ kvV ++ "' is not recognised (f16|q8_0|q4_0)"
  else if Floating.lt cfg.sampling.temperature 0.0 then "sampling.temperature must be >= 0.0"
  else if Floating.lt cfg.sampling.topP 0.0 || Floating.lt 1.0 cfg.sampling.topP then
    "sampling.top_p must be in [0.0, 1.0]"
  else if cfg.sampling.maxTokens < 1 then "sampling.max_tokens must be >= 1"
  else if logLevel ∉ ["trace", "debug", "info", "warn", "error"] then
    "logging.level '" ++ logLevel ++ "' is not recognised (trace|debug|info|warn|error)"
  else if logFmt ∉ ["text", "json"] then
    "logging.format '" ++ logFmt ++ "' is not recognised (text|json)"
  else if gp ∉ ["off", "relaxed", "balanced", "strict", "custom"] then
    "hardware.guardrails.preset '" ++ gp ++ "' is not recognised " ++
      "(off|relaxed|balanced|strict|custom)"
  else if Floating.lt vram 0.0 || Floating.lt 1.0 vram then
    "hardware.offload.vram_budget_fraction must be in [0.0, 1.0]"
  else if eng ∉ ["cpu-llama-cpp", "cuda12-llama-cpp", "cuda-llama-cpp", "vulkan-llama-cpp"] then
    "runtime.engine '" ++ eng ++ "' is not recognised " ++
      "(cpu-llama-cpp|cuda12-llama-cpp|cuda-llama-cpp|vulkan-llama-cpp)"
  else if ch ∉ ["stable", "nightly"] then
    "runtime.update_channel '" ++ ch ++ "' is not recognised (stable|nightly)"
  else ""

/-- The profile that is applied: that of the command line, or that of the document. -/
def profileOf (root : Toml D) (profileOverride : String) : Except ConfigError String :=
  if profileOverride ≠ "" then pure profileOverride
  else do
    if ← root.contains "profile" then
      let v ← root.find "profile"
      match v with
      | .string s => pure s
      | _ => throw .typeError
    else pure ""

/-- The configuration that the document is laid over. -/
def layered (profile : String) : TrueLLMConfig F :=
  if profile = "" then {} else applyProfile {} profile

def load (root : Toml D) (profileOverride : String) : Except ConfigError (TrueLLMConfig F) := do
  let profile ← profileOf root profileOverride
  let cfg : TrueLLMConfig F := layered profile
  let server ← parseServer env int root cfg.server
  let model ← parseModel env root cfg.model
  let inference ← parseInference env int root cfg.inference
  let sampling ← parseSampling int root cfg.sampling
  let logging ← parseLogging env root cfg.logging
  let hardware ← parseHardware env int root cfg.hardware
  let runtime ← parseRuntime env root cfg.runtime
  let plugins ← parsePlugins env int root cfg.plugins
  let cfg : TrueLLMConfig F := {
    profile := cfg.profile
    server := server
    model := model
    inference := inference
    sampling := sampling
    logging := logging
    hardware := hardware
    runtime := runtime
    plugins := plugins }
  let err := validate cfg
  if err ≠ "" then throw (.validation ("[config] Validation error: " ++ err)) else pure cfg

end TruellmEngine.Config

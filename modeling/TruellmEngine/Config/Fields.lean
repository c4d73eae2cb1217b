/-
  The fields of the configuration: for each the path of its key, its kind, and its place.
-/
import TruellmEngine.Config.Schema
import TruellmEngine.Config.Kinds

namespace TruellmEngine.Config

open Lib

variable {D F : Type}

/-- A field of a section. -/
structure Entry (F : Type) (σ : Type) where
  path : List String
  kind : Kind
  get : σ → Setting F
  holds : ∀ s, kind.Holds (get s)

namespace Entry

variable {F σ τ : Type} (key : String)

def string (get : σ → String) : Entry F σ :=
  ⟨[key], .string, fun s => .str (get s), fun _ => trivial⟩

def literal (get : σ → String) : Entry F σ :=
  ⟨[key], .literal, fun s => .str (get s), fun _ => trivial⟩

def strings (get : σ → List String) : Entry F σ :=
  ⟨[key], .strings, fun s => .strs (get s), fun _ => trivial⟩

def boolean (get : σ → Bool) : Entry F σ :=
  ⟨[key], .boolean, fun s => .bool (get s), fun _ => trivial⟩

def unread (get : σ → Bool) : Entry F σ :=
  ⟨[key], .unread, fun s => .bool (get s), fun _ => trivial⟩

def integer (get : σ → Int32) : Entry F σ :=
  ⟨[key], .integer, fun s => .int (get s).toInt, fun s => fitsInt_toInt (get s)⟩

def port (get : σ → UInt16) : Entry F σ :=
  ⟨[key], .port, fun s => .int (get s).toNat, fun s => fitsPort_toNat (get s)⟩

def integers (get : σ → List Int32) : Entry F σ :=
  ⟨[key], .integers, fun s => .ints ((get s).map Int32.toInt), fun s => ints_fit (get s)⟩

def floating (get : σ → F) : Entry F σ :=
  ⟨[key], .floating, fun s => .float (get s), fun _ => trivial⟩

def floatings (get : σ → List F) : Entry F σ :=
  ⟨[key], .floatings, fun s => .floats (get s), fun _ => trivial⟩

/-- The field as it is read. -/
def field [Doubles D F] (env : String → Option String) (int : GetInt) (e : Entry F σ) :
    DocField String (Toml D) (Setting F) σ where
  path := e.path
  read := e.kind.read env int
  stable b := e.kind.plain b = true
  get := e.get

def within (part : τ → σ) (e : Entry F σ) : Entry F τ where
  path := key :: e.path
  kind := e.kind
  get t := e.get (part t)
  holds t := e.holds (part t)

end Entry

/-! ## The schema -/

variable [Floating F]

def serverFields : List (Entry F ServerConfig) := [
  .string "host" (·.host),
  .port "port" (·.port),
  .string "api_key" (·.apiKey),
  .strings "cors_origins" (·.corsOrigins),
  .integer "request_timeout_ms" (·.requestTimeoutMs),
  .integer "max_concurrent" (·.maxConcurrent),
  .boolean "tls_enabled" (·.tlsEnabled),
  .string "tls_cert_file" (·.tlsCertFile),
  .string "tls_key_file" (·.tlsKeyFile),
  .boolean "enable_debug_endpoints" (·.enableDebugEndpoints)]

def modelFields : List (Entry F ModelConfig) := [
  .string "path" (·.path),
  .string "hf_repo" (·.hfRepo),
  .string "hf_file" (·.hfFile),
  .string "alias" (·.modelAlias),
  .string "chat_template" (·.chatTemplate),
  .boolean "trust_remote_code" (·.trustRemoteCode)]

def kvCacheFields : List (Entry F KvCacheConfig) := [
  .string "type_k" (·.typeK),
  .string "type_v" (·.typeV),
  .integer "size_mb" (·.sizeMb)]

def cudaFields : List (Entry F (CudaInferenceConfig F)) := [
  .integer "gpu_layers" (·.gpuLayers),
  .integer "main_gpu" (·.mainGpu),
  .floatings "tensor_split" (·.tensorSplit),
  .floating "gpu_memory_utilization" (·.gpuMemoryUtilization),
  .boolean "use_flash_attention_cuda" (·.useFlashAttentionCuda),
  .integer "compute_capability_major" (·.computeCapabilityMajor),
  .integer "compute_capability_minor" (·.computeCapabilityMinor)]

def cudaEngineFields : List (Entry F (CudaEngineConfig F)) := [
  .integer "paged_kv_block_size" (·.pagedKvBlockSize),
  .integer "max_num_blocks" (·.maxNumBlocks),
  .integer "max_num_seqs" (·.maxNumSeqs),
  .integer "num_cuda_streams" (·.numCudaStreams),
  .boolean "use_fp8_kv" (·.useFp8Kv),
  .floating "gpu_memory_utilization" (·.gpuMemoryUtilization),
  .integer "tensor_parallel_size" (·.tensorParallelSize),
  .boolean "enforce_eager" (·.enforceEager),
  .integer "cuda_graph_max_batch_size" (·.cudaGraphMaxBatchSize),
  .string "attention_layout" (·.attentionLayout),
  .unread "use_megakernel" (·.useMegakernel),
  .unread "megakernel_save_attn" (·.megakernelSaveAttn),
  .unread "megakernel_save_hidden" (·.megakernelSaveHidden)]

def batchingFields : List (Entry F BatchingConfig) := [
  .boolean "enabled" (·.enabled),
  .integer "max_seqs" (·.maxSeqs),
  .integer "max_queue" (·.maxQueue),
  .boolean "kv_unified" (·.kvUnified)]

def presisFields : List (Entry F (PresisConfig F)) := [
  .boolean "enabled" (·.enabled),
  .floating "threshold" (·.threshold),
  .floating "keep_fraction" (·.keepFraction),
  .integer "importance_layers" (·.importanceLayers),
  .boolean "fallback_tfidf" (·.fallbackTfidf),
  .integer "max_seqlen_for_attn" (·.maxSeqlenForAttn)]

def toMeFields : List (Entry F ToMeConfig) := [
  .boolean "enabled" (·.enabled),
  .integer "r" (·.r),
  .integer "start_layer" (·.startLayer),
  .boolean "apply_all_layers" (·.applyAllLayers),
  .string "merge_mode" (·.mergeMode)]

def fastVFields : List (Entry F (FastVConfig F)) := [
  .boolean "enabled" (·.enabled),
  .integer "start_layer" (·.startLayer),
  .floating "keep_ratio" (·.keepRatio),
  .string "importance_metric" (·.importanceMetric)]

def pyramidDropFields : List (Entry F (PyramidDropConfig F)) := [
  .boolean "enabled" (·.enabled),
  .floating "final_keep_ratio" (·.finalKeepRatio),
  .string "drop_schedule" (·.dropSchedule),
  .integer "warmup_layers" (·.warmupLayers),
  .integer "protect_last_n_tokens" (·.protectLastNTokens)]

def kvKiviFields : List (Entry F KiviConfig) := [
  .boolean "enabled" (·.enabled),
  .integer "bits" (·.bits),
  .integer "residual_length" (·.residualLength),
  .string "key_granularity" (·.keyGranularity),
  .string "value_granularity" (·.valueGranularity),
  .boolean "pre_rope_keys" (·.preRopeKeys)]

def kvVqFields : List (Entry F (VqConfig F)) := [
  .boolean "enabled" (·.enabled),
  .integer "codebook_size" (·.codebookSize),
  .floating "update_rate" (·.updateRate),
  .integer "residual_depth" (·.residualDepth),
  .boolean "outlier_tracing" (·.outlierTracing),
  .string "calibration_text" (·.calibrationText),
  .boolean "disable_in_subcalls" (·.disableInSubcalls)]

def compressionFields : List (Entry F (CompressionConfig F)) := List.flatten [
  [.boolean "enabled" (·.enabled),
   .string "pipeline" (·.pipeline)],
  presisFields.map (·.within "presis" (·.presis)),
  toMeFields.map (·.within "tome" (·.tome)),
  fastVFields.map (·.within "fastv" (·.fastv)),
  pyramidDropFields.map (·.within "pyramid_drop" (·.pyramidDrop)),
  kvKiviFields.map (·.within "kv_kivi" (·.kvKivi)),
  kvVqFields.map (·.within "kv_vq" (·.kvVq))]

def rlmFields : List (Entry F RlmConfig) := [
  .boolean "enabled" (·.enabled),
  .integer "chunk_size_tokens" (·.chunkSizeTokens),
  .integer "chunk_overlap_tokens" (·.chunkOverlapTokens),
  .integer "summary_tokens_per_chunk" (·.summaryTokensPerChunk),
  .integer "max_hierarchy_depth" (·.maxHierarchyDepth),
  .boolean "chunk_cache_enabled" (·.chunkCacheEnabled)]

def reasoningFields : List (Entry F ReasoningConfig) := [
  .literal "format" (·.format),
  .boolean "enable_thinking" (·.enableThinking)]

def inferenceFields : List (Entry F (InferenceConfig F)) := List.flatten [
  [.string "backend" (·.backend),
   .integer "context_size" (·.contextSize),
   .integer "batch_size" (·.batchSize),
   .integer "ubatch_size" (·.ubatchSize),
   .integer "threads" (·.threads),
   .boolean "flash_attention" (·.flashAttention),
   .boolean "mmap" (·.mmap),
   .boolean "mlock" (·.mlock),
   .string "numa" (·.numa)],
  kvCacheFields.map (·.within "kv_cache" (·.kvCache)),
  cudaFields.map (·.within "cuda" (·.cuda)),
  cudaEngineFields.map (·.within "cuda_engine" (·.cudaEngine)),
  batchingFields.map (·.within "batching" (·.batching)),
  compressionFields.map (·.within "compression" (·.compression)),
  rlmFields.map (·.within "recursive_lm" (·.rlm)),
  reasoningFields.map (·.within "reasoning" (·.reasoning))]

def samplingFields : List (Entry F (SamplingConfig F)) := [
  .floating "temperature" (·.temperature),
  .floating "top_p" (·.topP),
  .integer "top_k" (·.topK),
  .floating "min_p" (·.minP),
  .floating "repeat_penalty" (·.repeatPenalty),
  .floating "frequency_penalty" (·.frequencyPenalty),
  .floating "presence_penalty" (·.presencePenalty),
  .integer "max_tokens" (·.maxTokens),
  .integer "seed" (·.seed),
  .strings "stop" (·.stop)]

def gpuFields : List (Entry F (GpuDeviceConfig F)) := [
  .boolean "enabled" (·.enabled),
  .integer "device_id" (·.deviceId),
  .string "name_hint" (·.nameHint),
  .floating "vram_capacity_gb" (·.vramCapacityGb),
  .string "backend_api" (·.backendApi)]

def offloadFields : List (Entry F (OffloadConfig F)) := [
  .boolean "use_gpu_vram" (·.useGpuVram),
  .boolean "use_system_ram" (·.useSystemRam),
  .boolean "use_shared_memory" (·.useSharedMemory),
  .integer "gpu_layers" (·.gpuLayers),
  .floating "vram_budget_fraction" (·.vramBudgetFraction)]

def guardrailsFields : List (Entry F (GuardrailsConfig F)) := [
  .string "preset" (·.preset),
  .floating "max_model_size_gb" (·.maxModelSizeGb),
  .boolean "allow_overcommit" (·.allowOvercommit),
  .floating "ram_fraction_limit" (·.ramFractionLimit),
  .floating "vram_fraction_limit" (·.vramFractionLimit)]

def hardwareFields : List (Entry F (HardwareConfig F)) := List.flatten [
  [.integer "cpu_threads" (·.cpuThreads),
   .integers "cpu_affinity" (·.cpuAffinity),
   .floating "max_ram_gb" (·.maxRamGb),
   .integer "resource_monitor_interval_ms" (·.resourceMonitorIntervalMs)],
  gpuFields.map (·.within "gpu" (·.gpu)),
  offloadFields.map (·.within "offload" (·.offload)),
  guardrailsFields.map (·.within "guardrails" (·.guardrails))]

/-- The settings of plugins are apart. -/
def pluginFields : List (Entry F (PluginConfig F)) := [
  .boolean "enabled" (·.enabled),
  .string "python_path" (·.pythonPath),
  .strings "plugin_dirs" (·.pluginDirs),
  .string "socket_path" (·.socketPath),
  .integer "sidecar_timeout_ms" (·.sidecarTimeoutMs),
  .boolean "restart_on_crash" (·.restartOnCrash),
  .integer "max_restart_attempts" (·.maxRestartAttempts),
  .string "data_dir" (·.dataDir),
  .integer "tool_max_rounds" (·.toolMaxRounds),
  .boolean "context_split_enabled" (·.contextSplitEnabled),
  .literal "context_split_strategy" (·.contextSplitStrategy),
  .floating "context_split_trigger_fraction" (·.contextSplitTriggerFraction),
  .floating "context_split_truncate_fraction" (·.contextSplitTruncateFraction),
  .floating "context_split_auto_chunk_fraction" (·.contextSplitAutoChunkFraction),
  .integer "context_split_chunk_tokens" (·.contextSplitChunkTokens),
  .integer "context_split_max_chunks" (·.contextSplitMaxChunks),
  .integer "context_split_summary_tokens" (·.contextSplitSummaryTokens)]

def schema : List (Entry F (TrueLLMConfig F)) := List.flatten [
  serverFields.map (·.within "server" (·.server)),
  modelFields.map (·.within "model" (·.model)),
  inferenceFields.map (·.within "inference" (·.inference)),
  samplingFields.map (·.within "sampling" (·.sampling)),
  hardwareFields.map (·.within "hardware" (·.hardware)),
  pluginFields.map (·.within "plugins" (·.plugins))]

end TruellmEngine.Config

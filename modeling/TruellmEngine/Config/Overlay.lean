/-
  What `load` does to the fields of the configuration: each section is laid over what it had.

  One lemma for each helper shape (`Laid.string`, `Laid.integer`, …), one for a section that may
  be absent (`inSection_laid`), and each `parse_*` function is a chain of them.
-/
import TruellmEngine.Config.Fields
import TruellmEngine.Config.Load
import TruellmEngine.Lib.Json

namespace TruellmEngine.Config

open Lib

theorem Toml.findOr_map {D F α : Type} (v : Toml D) (key : String) (f : α → Setting F)
    (get : Toml D → Option α) (dflt : α) :
    f (v.findOr get key dflt) = ((v.at? key).bind fun w => (get w).map f).getD (f dflt) := by
  unfold findOr
  rw [← Option.getD_map f, Option.map_bind]
  rfl

variable {D F : Type} [Doubles D F] (env : String → Option String) (int : GetInt) {σ τ : Type}

/-- The document is laid over the fields. -/
def Laid (fields : List (Entry F σ)) (v : Toml D) (s s' : σ) : Prop :=
  Overlays Toml.at? (fields.map (Entry.field env int)) v s s'

namespace Laid

variable {env} {int} {fields more : List (Entry F σ)} {v : Toml D} {s s' : σ} {key : String}

theorem nil : Laid env int ([] : List (Entry F σ)) v s s' :=
  fun _ h => absurd h List.not_mem_nil

theorem cons {kind : Kind} {get : σ → Setting F} {holds : ∀ s, kind.Holds (get s)}
    (h : kind.plain (get s) = true →
      get s' = ((v.at? key).bind (kind.read env int)).getD (get s))
    (rest : Laid env int fields v s s') :
    Laid env int (⟨[key], kind, get, holds⟩ :: fields) v s s' := by
  unfold Laid Overlays
  rw [List.map_cons, List.forall_mem_cons]
  refine ⟨?_, rest⟩
  intro hplain
  have hfollow : follow Toml.at? v [key] = v.at? key := Option.bind_fun_some _
  show get s' = ((follow Toml.at? v [key]).bind (kind.read env int)).getD (get s)
  rw [hfollow]
  exact h hplain

/-- A list of fields, and the rest of the groups. -/
theorem group {rest : List (List (Entry F σ))} (h : Laid env int fields v s s')
    (hrest : Laid env int rest.flatten v s s') :
    Laid env int (fields :: rest).flatten v s s' := by
  unfold Laid
  rw [List.flatten_cons, List.map_append]
  exact h.append hrest

/-! ## Helper shapes -/

theorem string (get : σ → String) (h : get s' = findStr env v key (get s))
    (rest : Laid env int fields v s s') :
    Laid env int (.string key get :: fields) v s s' := by
  refine rest.cons fun hplain => ?_
  have hdflt : resolveSecrets env (get s) = get s := by
    apply resolveSecrets_plain
    intro hdollar
    have hno : (!(get s).toList.contains '$') = true := hplain
    rw [List.contains_iff_mem.mpr hdollar] at hno
    cases hno
  have hread := Toml.findOr_map v key
    (fun x => (Setting.str (resolveSecrets env x) : Setting F)) Toml.getString (get s)
  rw [hdflt] at hread
  rw [h]
  exact hread

theorem literal (get : σ → String) (h : get s' = findText v key (get s))
    (rest : Laid env int fields v s s') :
    Laid env int (.literal key get :: fields) v s s' := by
  refine rest.cons fun _ => ?_
  rw [h]
  exact Toml.findOr_map v key Setting.str Toml.getString (get s)

theorem strings (get : σ → List String) (h : get s' = findStrings v key (get s))
    (rest : Laid env int fields v s s') :
    Laid env int (.strings key get :: fields) v s s' := by
  refine rest.cons fun _ => ?_
  rw [h]
  exact Toml.findOr_map v key Setting.strs (Toml.getVector Toml.getString) (get s)

theorem boolean (get : σ → Bool) (h : get s' = findBool v key (get s))
    (rest : Laid env int fields v s s') :
    Laid env int (.boolean key get :: fields) v s s' := by
  refine rest.cons fun _ => ?_
  rw [h]
  exact Toml.findOr_map v key Setting.bool Toml.getBool (get s)

theorem unread (get : σ → Bool) (h : get s' = get s) (rest : Laid env int fields v s s') :
    Laid env int (.unread key get :: fields) v s s' := by
  refine rest.cons fun _ => ?_
  have hread : (v.at? key).bind (Kind.unread.read (F := F) env int) = none := by
    cases v.at? key <;> rfl
  rw [hread, h]
  rfl

theorem integer (get : σ → Int32) (h : get s' = findInt int v key (get s))
    (rest : Laid env int fields v s s') :
    Laid env int (.integer key get :: fields) v s s' := by
  refine rest.cons fun _ => ?_
  rw [h]
  exact Toml.findOr_map v key (fun x => Setting.int x.toInt) (Toml.getInt int) (get s)

theorem port (get : σ → UInt16) (h : get s' = findPort int v key (get s))
    (rest : Laid env int fields v s s') :
    Laid env int (.port key get :: fields) v s s' := by
  refine rest.cons fun _ => ?_
  have hread := Toml.findOr_map v key
    (fun x => (Setting.int x.toUInt32.toUInt16.toNat : Setting F)) (Toml.getInt int)
    (Int32.ofNat (get s).toNat)
  rw [toPort_ofNat] at hread
  rw [h]
  exact hread

theorem integers (get : σ → List Int32) (h : get s' = findInts int v key (get s))
    (rest : Laid env int fields v s s') :
    Laid env int (.integers key get :: fields) v s s' := by
  refine rest.cons fun _ => ?_
  rw [h]
  exact Toml.findOr_map v key (fun l => Setting.ints (l.map (·.toInt)))
    (Toml.getVector (Toml.getInt int)) (get s)

theorem floating (get : σ → F) (h : get s' = findFloat v key (get s))
    (rest : Laid env int fields v s s') :
    Laid env int (.floating key get :: fields) v s s' := by
  refine rest.cons fun _ => ?_
  have hread := Toml.findOr_map v key
    (fun d => (Setting.float (Doubles.narrow d) : Setting F)) Toml.getDouble
    (Doubles.widen (get s))
  rw [Doubles.narrow_widen] at hread
  have hkind : Kind.floating.read (D := D) (F := F) env int =
      fun w => w.getDouble.map fun d => Setting.float (Doubles.narrow d) := by
    funext w
    exact Option.map_map _ _ _
  rw [h, hkind]
  exact hread

theorem floatings (get : σ → List F) (h : get s' = findFloats v key (get s))
    (rest : Laid env int fields v s s') :
    Laid env int (.floatings key get :: fields) v s s' := by
  refine rest.cons fun _ => ?_
  rw [h]
  exact Toml.findOr_map v key Setting.floats (Toml.getVector (Toml.getFloat (D := D))) (get s)

end Laid

/-! ## Sections -/

/-- The section is laid over the fields, or it is absent and they are as they were. -/
def LaidIn (fields : List (Entry F σ)) (key : String) (v : Toml D) (s s' : σ) : Prop :=
  (∃ w, v.at? key = some w ∧ Laid env int fields w s s') ∨ (v.at? key = none ∧ s' = s)

variable {env} {int}

/-- A section is one part of the fields of what encloses it. -/
theorem LaidIn.within {fields : List (Entry F σ)} {key : String} {v : Toml D} {s s' : σ}
    {part : τ → σ} {t t' : τ} (h : LaidIn env int fields key v s s') (ht : part t = s)
    (ht' : part t' = s') : Laid env int (fields.map (·.within key part)) v t t' := by
  have hfields : (fields.map (·.within key part)).map (Entry.field env int) =
      (fields.map (Entry.field (D := D) env int)).map (·.within key part) := by
    rw [List.map_map, List.map_map]
    rfl
  subst ht ht'
  unfold Laid
  rw [hfields]
  rcases h with ⟨w, hw, hlaid⟩ | ⟨hnone, hsame⟩
  · exact Overlays.within hw hlaid
  · exact Overlays.absent hnone hsame

/-- A section is parsed where there is one. -/
theorem inSection_ok {α : Type} {v : Toml D} {key : String} {out out' : α}
    {parse : Toml D → Except ConfigError α} (h : inSection v key out parse = .ok out') :
    (∃ w, v.at? key = some w ∧ parse w = .ok out') ∨ (v.at? key = none ∧ out' = out) := by
  obtain ⟨present, hpresent, h⟩ := bind_eq_ok.mp h
  cases v with
  | table entries =>
    cases hpresent
    cases hat : (Toml.table entries).at? key with
    | none =>
      rw [hat] at h
      cases h
      exact .inr ⟨rfl, rfl⟩
    | some w =>
      rw [hat] at h
      obtain ⟨w', hw', h⟩ := bind_eq_ok.mp h
      have hfind : (Toml.table entries).find key = .ok w := by
        show ((Toml.table entries).at? key).elim _ _ = _
        rw [hat]
        rfl
      rw [hfind] at hw'
      cases hw'
      exact .inl ⟨w, rfl, h⟩
  | boolean | integer | floating | string | datetime | array => cases hpresent

theorem inSection_laid {fields : List (Entry F σ)} {key : String} {v : Toml D} {s s' : σ}
    {parse : Toml D → Except ConfigError σ} (h : inSection v key s parse = .ok s')
    (hparse : ∀ w, parse w = .ok s' → Laid env int fields w s s') :
    LaidIn env int fields key v s s' := by
  rcases inSection_ok h with ⟨w, hw, hpart⟩ | hnone
  · exact .inl ⟨w, hw, hparse w hpart⟩
  · exact .inr hnone

theorem parseServer_laid {root : Toml D} {out out' : ServerConfig}
    (h : parseServer env int root out = .ok out') :
    LaidIn (F := F) env int serverFields "server" root out out' := by
  apply inSection_laid h
  intro t ht
  cases ht
  exact .string _ rfl <| .port _ rfl <| .string _ rfl <| .strings _ rfl <| .integer _ rfl <|
    .integer _ rfl <| .boolean _ rfl <| .string _ rfl <| .string _ rfl <| .boolean _ rfl .nil

theorem parseModel_laid {root : Toml D} {out out' : ModelConfig}
    (h : parseModel env root out = .ok out') :
    LaidIn (F := F) env int modelFields "model" root out out' := by
  apply inSection_laid h
  intro t ht
  cases ht
  exact .string _ rfl <| .string _ rfl <| .string _ rfl <| .string _ rfl <| .string _ rfl <|
    .boolean _ rfl .nil

theorem parseKvCache_laid {inf : Toml D} {out out' : KvCacheConfig}
    (h : parseKvCache env int inf out = .ok out') :
    LaidIn (F := F) env int kvCacheFields "kv_cache" inf out out' := by
  apply inSection_laid h
  intro t ht
  cases ht
  exact .string _ rfl <| .string _ rfl <| .integer _ rfl .nil

theorem parseBatching_laid {inf : Toml D} {out out' : BatchingConfig}
    (h : parseBatching int inf out = .ok out') :
    LaidIn (F := F) env int batchingFields "batching" inf out out' := by
  apply inSection_laid h
  intro t ht
  cases ht
  exact .boolean _ rfl <| .integer _ rfl <| .integer _ rfl <| .boolean _ rfl .nil

theorem parseToMe_laid {c : Toml D} {out out' : ToMeConfig}
    (h : parseToMe env int c out = .ok out') :
    LaidIn (F := F) env int toMeFields "tome" c out out' := by
  apply inSection_laid h
  intro t ht
  cases ht
  exact .boolean _ rfl <| .integer _ rfl <| .integer _ rfl <| .boolean _ rfl <| .string _ rfl .nil

theorem parseKvKivi_laid {c : Toml D} {out out' : KiviConfig}
    (h : parseKvKivi env int c out = .ok out') :
    LaidIn (F := F) env int kvKiviFields "kv_kivi" c out out' := by
  apply inSection_laid h
  intro t ht
  cases ht
  exact .boolean _ rfl <| .integer _ rfl <| .integer _ rfl <| .string _ rfl <| .string _ rfl <|
    .boolean _ rfl .nil

theorem parseRlm_laid {inf : Toml D} {out out' : RlmConfig}
    (h : parseRlm int inf out = .ok out') :
    LaidIn (F := F) env int rlmFields "recursive_lm" inf out out' := by
  apply inSection_laid h
  intro t ht
  cases ht
  exact .boolean _ rfl <| .integer _ rfl <| .integer _ rfl <| .integer _ rfl <| .integer _ rfl <|
    .boolean _ rfl .nil

theorem parseReasoning_laid {inf : Toml D} {out out' : ReasoningConfig}
    (h : parseReasoning inf out = .ok out') :
    LaidIn (F := F) env int reasoningFields "reasoning" inf out out' := by
  apply inSection_laid h
  intro t ht
  cases ht
  exact .literal _ rfl <| .boolean _ rfl .nil

variable [Floating F]

theorem parseCudaInference_laid {inf : Toml D} {out out' : CudaInferenceConfig F}
    (h : parseCudaInference int inf out = .ok out') :
    LaidIn env int cudaFields "cuda" inf out out' := by
  apply inSection_laid h
  intro t ht
  cases ht
  exact .integer _ rfl <| .integer _ rfl <| .floatings _ rfl <| .floating _ rfl <| .boolean _ rfl <|
    .integer _ rfl <| .integer _ rfl .nil

/-- Three switches are not read. -/
theorem parseCudaEngine_laid {inf : Toml D} {out out' : CudaEngineConfig F}
    (h : parseCudaEngine env int inf out = .ok out') :
    LaidIn env int cudaEngineFields "cuda_engine" inf out out' := by
  apply inSection_laid h
  intro t ht
  cases ht
  exact .integer _ rfl <| .integer _ rfl <| .integer _ rfl <| .integer _ rfl <| .boolean _ rfl <|
    .floating _ rfl <| .integer _ rfl <| .boolean _ rfl <| .integer _ rfl <| .string _ rfl <|
    .unread _ rfl <| .unread _ rfl <| .unread _ rfl .nil

theorem parsePresis_laid {c : Toml D} {out out' : PresisConfig F}
    (h : parsePresis int c out = .ok out') :
    LaidIn env int presisFields "presis" c out out' := by
  apply inSection_laid h
  intro t ht
  cases ht
  exact .boolean _ rfl <| .floating _ rfl <| .floating _ rfl <| .integer _ rfl <| .boolean _ rfl <|
    .integer _ rfl .nil

theorem parseFastV_laid {c : Toml D} {out out' : FastVConfig F}
    (h : parseFastV env int c out = .ok out') :
    LaidIn env int fastVFields "fastv" c out out' := by
  apply inSection_laid h
  intro t ht
  cases ht
  exact .boolean _ rfl <| .integer _ rfl <| .floating _ rfl <| .string _ rfl .nil

theorem parsePyramidDrop_laid {c : Toml D} {out out' : PyramidDropConfig F}
    (h : parsePyramidDrop env int c out = .ok out') :
    LaidIn env int pyramidDropFields "pyramid_drop" c out out' := by
  apply inSection_laid h
  intro t ht
  cases ht
  exact .boolean _ rfl <| .floating _ rfl <| .string _ rfl <| .integer _ rfl <| .integer _ rfl .nil

theorem parseKvVq_laid {c : Toml D} {out out' : VqConfig F}
    (h : parseKvVq env int c out = .ok out') :
    LaidIn env int kvVqFields "kv_vq" c out out' := by
  apply inSection_laid h
  intro t ht
  cases ht
  exact .boolean _ rfl <| .integer _ rfl <| .floating _ rfl <| .integer _ rfl <| .boolean _ rfl <|
    .string _ rfl <| .boolean _ rfl .nil

theorem parseCompression_laid {inf : Toml D} {out out' : CompressionConfig F}
    (h : parseCompression env int inf out = .ok out') :
    LaidIn env int compressionFields "compression" inf out out' := by
  apply inSection_laid h
  intro t ht
  obtain ⟨presis, hpresis, ht⟩ := bind_eq_ok.mp ht
  obtain ⟨tome, htome, ht⟩ := bind_eq_ok.mp ht
  obtain ⟨fastv, hfastv, ht⟩ := bind_eq_ok.mp ht
  obtain ⟨pyramidDrop, hpyramidDrop, ht⟩ := bind_eq_ok.mp ht
  obtain ⟨kvKivi, hkvKivi, ht⟩ := bind_eq_ok.mp ht
  obtain ⟨kvVq, hkvVq, ht⟩ := bind_eq_ok.mp ht
  cases ht
  exact .group (.boolean _ rfl <| .string _ rfl .nil) <|
    .group ((parsePresis_laid hpresis).within rfl rfl) <|
    .group ((parseToMe_laid htome).within rfl rfl) <|
    .group ((parseFastV_laid hfastv).within rfl rfl) <|
    .group ((parsePyramidDrop_laid hpyramidDrop).within rfl rfl) <|
    .group ((parseKvKivi_laid hkvKivi).within rfl rfl) <|
    .group ((parseKvVq_laid hkvVq).within rfl rfl) .nil

theorem parseInference_laid {root : Toml D} {out out' : InferenceConfig F}
    (h : parseInference env int root out = .ok out') :
    LaidIn env int inferenceFields "inference" root out out' := by
  apply inSection_laid h
  intro t ht
  obtain ⟨kvCache, hkvCache, ht⟩ := bind_eq_ok.mp ht
  obtain ⟨cuda, hcuda, ht⟩ := bind_eq_ok.mp ht
  obtain ⟨cudaEngine, hcudaEngine, ht⟩ := bind_eq_ok.mp ht
  obtain ⟨batching, hbatching, ht⟩ := bind_eq_ok.mp ht
  obtain ⟨compression, hcompression, ht⟩ := bind_eq_ok.mp ht
  obtain ⟨rlm, hrlm, ht⟩ := bind_eq_ok.mp ht
  obtain ⟨reasoning, hreasoning, ht⟩ := bind_eq_ok.mp ht
  cases ht
  exact .group (.string _ rfl <| .integer _ rfl <| .integer _ rfl <| .integer _ rfl <|
      .integer _ rfl <| .boolean _ rfl <| .boolean _ rfl <| .boolean _ rfl <|
      .string _ rfl .nil) <|
    .group ((parseKvCache_laid hkvCache).within rfl rfl) <|
    .group ((parseCudaInference_laid hcuda).within rfl rfl) <|
    .group ((parseCudaEngine_laid hcudaEngine).within rfl rfl) <|
    .group ((parseBatching_laid hbatching).within rfl rfl) <|
    .group ((parseCompression_laid hcompression).within rfl rfl) <|
    .group ((parseRlm_laid hrlm).within rfl rfl) <|
    .group ((parseReasoning_laid hreasoning).within rfl rfl) .nil

theorem parseSampling_laid {root : Toml D} {out out' : SamplingConfig F}
    (h : parseSampling int root out = .ok out') :
    LaidIn env int samplingFields "sampling" root out out' := by
  apply inSection_laid h
  intro t ht
  cases ht
  exact .floating _ rfl <| .floating _ rfl <| .integer _ rfl <| .floating _ rfl <|
    .floating _ rfl <| .floating _ rfl <| .floating _ rfl <| .integer _ rfl <| .integer _ rfl <|
    .strings _ rfl .nil

theorem parseGpu_laid {hw : Toml D} {out out' : GpuDeviceConfig F}
    (h : parseGpu env int hw out = .ok out') :
    LaidIn env int gpuFields "gpu" hw out out' := by
  apply inSection_laid h
  intro t ht
  cases ht
  exact .boolean _ rfl <| .integer _ rfl <| .string _ rfl <| .floating _ rfl <| .string _ rfl .nil

theorem parseOffload_laid {hw : Toml D} {out out' : OffloadConfig F}
    (h : parseOffload int hw out = .ok out') :
    LaidIn env int offloadFields "offload" hw out out' := by
  apply inSection_laid h
  intro t ht
  cases ht
  exact .boolean _ rfl <| .boolean _ rfl <| .boolean _ rfl <| .integer _ rfl <| .floating _ rfl .nil

theorem parseGuardrails_laid {hw : Toml D} {out out' : GuardrailsConfig F}
    (h : parseGuardrails env hw out = .ok out') :
    LaidIn env int guardrailsFields "guardrails" hw out out' := by
  apply inSection_laid h
  intro t ht
  cases ht
  exact .string _ rfl <| .floating _ rfl <| .boolean _ rfl <| .floating _ rfl <|
    .floating _ rfl .nil

theorem parseHardware_laid {root : Toml D} {out out' : HardwareConfig F}
    (h : parseHardware env int root out = .ok out') :
    LaidIn env int hardwareFields "hardware" root out out' := by
  apply inSection_laid h
  intro t ht
  obtain ⟨gpu, hgpu, ht⟩ := bind_eq_ok.mp ht
  obtain ⟨offload, hoffload, ht⟩ := bind_eq_ok.mp ht
  obtain ⟨guardrails, hguardrails, ht⟩ := bind_eq_ok.mp ht
  cases ht
  exact .group (.integer _ rfl <| .integers _ rfl <| .floating _ rfl <| .integer _ rfl .nil) <|
    .group ((parseGpu_laid hgpu).within rfl rfl) <|
    .group ((parseOffload_laid hoffload).within rfl rfl) <|
    .group ((parseGuardrails_laid hguardrails).within rfl rfl) .nil

theorem parsePlugins_laid {root : Toml D} {out out' : PluginConfig F}
    (h : parsePlugins env int root out = .ok out') :
    LaidIn env int pluginFields "plugins" root out out' := by
  apply inSection_laid h
  intro t ht
  obtain ⟨settings, -, ht⟩ := bind_eq_ok.mp ht
  cases ht
  exact .boolean _ rfl <| .string _ rfl <| .strings _ rfl <| .string _ rfl <| .integer _ rfl <|
    .boolean _ rfl <| .integer _ rfl <| .string _ rfl <| .integer _ rfl <| .boolean _ rfl <|
    .literal _ rfl <| .floating _ rfl <| .floating _ rfl <| .floating _ rfl <| .integer _ rfl <|
    .integer _ rfl <| .integer _ rfl .nil

end TruellmEngine.Config

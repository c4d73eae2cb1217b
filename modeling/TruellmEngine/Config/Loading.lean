/-
  A document over a profile over the defaults.

  `Overlaid`: every field of the schema is what the document means it to be, or what it was, and
  the settings of plugins are under their names. A load achieves this exactly for the documents
  that are `Honoured`: no string in an array has a reference, the switches that are not read are
  off, and the integers fit (`load_overlaid_iff`).
-/
import TruellmEngine.Config.PluginSettings
import Mathlib.Data.Rat.Defs

namespace TruellmEngine.Config

open Lib

variable {D F : Type} [Floating F]

/-! ## The defaults -/

/-- No default has a reference, and no switch that is not read is on. -/
def PlainFields (cfg : TrueLLMConfig F) : Prop := ∀ e ∈ schema, e.kind.plain (e.get cfg) = true

theorem plainFields_of_all {cfg : TrueLLMConfig F}
    (h : (schema.all fun e => e.kind.plain (e.get cfg)) = true) : PlainFields cfg :=
  List.all_eq_true.mp h

theorem layered_plain (profile : String) : PlainFields (layered (F := F) profile) := by
  unfold layered applyProfile
  split_ifs
  · exact plainFields_of_all (by cbv)
  · exact plainFields_of_all (by cbv)
  · exact plainFields_of_all (by cbv)
  · exact plainFields_of_all (by cbv)
  · exact plainFields_of_all (by cbv)

/-! ## Loading -/

variable [Doubles D F] (env : String → Option String) {int : GetInt} {root : Toml D}

theorem load_sections {profileOverride profile : String} {cfg : TrueLLMConfig F}
    (h : load env int root profileOverride = .ok cfg)
    (hprofile : profileOf root profileOverride = .ok profile) :
    Laid env int schema root (layered profile) cfg ∧
      (Flattened env root (layered (F := F) profile).plugins.settings cfg.plugins.settings ↔
        OneText env root) := by
  obtain ⟨profile', hprofile', h⟩ := bind_eq_ok.mp h
  obtain rfl : profile' = profile := Except.ok.inj (hprofile'.symm.trans hprofile)
  obtain ⟨server, hserver, h⟩ := bind_eq_ok.mp h
  obtain ⟨model, hmodel, h⟩ := bind_eq_ok.mp h
  obtain ⟨inference, hinference, h⟩ := bind_eq_ok.mp h
  obtain ⟨sampling, hsampling, h⟩ := bind_eq_ok.mp h
  obtain ⟨logging, -, h⟩ := bind_eq_ok.mp h
  obtain ⟨hardware, hhardware, h⟩ := bind_eq_ok.mp h
  obtain ⟨runtime, -, h⟩ := bind_eq_ok.mp h
  obtain ⟨plugins, hplugins, h⟩ := bind_eq_ok.mp h
  dsimp only at h
  split_ifs at h
  cases h
  constructor
  · exact .group ((parseServer_laid hserver).within rfl rfl) <|
      .group ((parseModel_laid hmodel).within rfl rfl) <|
      .group ((parseInference_laid hinference).within rfl rfl) <|
      .group ((parseSampling_laid hsampling).within rfl rfl) <|
      .group ((parseHardware_laid hhardware).within rfl rfl) <|
      .group ((parsePlugins_laid hplugins).within rfl rfl) .nil
  · exact parsePlugins_settings hplugins

/-- Every field is as the document means it, or as it was. -/
def Overlaid (root : Toml D) (base cfg : TrueLLMConfig F) : Prop :=
  (∀ e ∈ schema,
      e.get cfg = ((follow Toml.at? root e.path).bind (e.kind.means env)).getD (e.get base)) ∧
    Flattened env root base.plugins.settings cfg.plugins.settings

/-- What a load keeps of a document is all of it. -/
def Honoured (F : Type) [Floating F] (root : Toml D) : Prop :=
  (∀ e ∈ schema (F := F), ∀ w, follow Toml.at? root e.path = some w → e.kind.Kept env w) ∧
    OneText env root

/-- A field is as the document means it just if its value there is kept. -/
theorem load_field_iff {profileOverride profile : String} {cfg : TrueLLMConfig F}
    (h : load env int root profileOverride = .ok cfg)
    (hprofile : profileOf root profileOverride = .ok profile) {e : Entry F (TrueLLMConfig F)}
    (he : e ∈ schema) :
    e.get cfg =
        ((follow Toml.at? root e.path).bind (e.kind.means env)).getD (e.get (layered profile)) ↔
      ∀ w, follow Toml.at? root e.path = some w → e.kind.Kept env w := by
  obtain ⟨hlaid, -⟩ := load_sections env h hprofile
  have hplain := layered_plain profile e he
  have hread : e.get cfg =
      ((follow Toml.at? root e.path).bind (e.kind.read env int)).getD (e.get (layered profile)) :=
    hlaid (e.field env int) (List.mem_map_of_mem he) hplain
  rw [hread]
  cases hw : follow Toml.at? root e.path with
  | none =>
    refine iff_of_true rfl ?_
    intro w hw
    cases hw
  | some w =>
    rw [Option.bind_some, Option.bind_some, Kind.kept_iff env int (e.holds _) hplain]
    constructor
    · intro hkept w' hw'
      exact Option.some.inj hw' ▸ hkept
    · intro hkept
      exact hkept w rfl

theorem load_overlaid_iff {profileOverride profile : String} {cfg : TrueLLMConfig F}
    (h : load env int root profileOverride = .ok cfg)
    (hprofile : profileOf root profileOverride = .ok profile) :
    Overlaid env root (layered profile) cfg ↔ Honoured env F root :=
  and_congr (forall₂_congr fun _ he => load_field_iff env h hprofile he)
    (load_sections env h hprofile).2

/-! ## Documents -/

instance : Floating ℚ where
  lt a b := decide (a < b)

instance : Doubles ℚ ℚ where
  narrow := id
  widen := id
  narrow_widen _ := rfl
  text := toString

/-- `static_cast<int>` -/
def truncating : GetInt where
  get i := some i.toInt32
  get_of_fits _ _ _ := rfl

/-- `[server] port = 9090` and `api_key = "${ENV:KEY}"` -/
def serverDocument : Toml ℚ :=
  .table [("server", .table [("port", .integer 9090), ("api_key", .string "$\x7bENV:KEY\x7d")])]

theorem load_overlaid_server : ∃ cfg,
    load (fun _ => some "secret") truncating serverDocument "" = .ok cfg ∧
      (Overlaid (fun _ => some "secret") serverDocument (layered "") cfg ↔
        Honoured (fun _ => some "secret") ℚ serverDocument) := by
  have hok : (load (fun _ => some "secret") truncating serverDocument "").isOk = true := by
    decide +kernel
  obtain ⟨cfg, hcfg⟩ := isOk_iff.mp hok
  exact ⟨cfg, hcfg, load_overlaid_iff _ hcfg rfl⟩

/-- `[inference.cuda_engine] use_megakernel = true` -/
def megakernelDocument : Toml ℚ :=
  .table [("inference", .table [("cuda_engine", .table [("use_megakernel", .boolean true)])])]

/-- The switch is on in the document, and off behind the load. -/
theorem megakernel_ignored : ∃ cfg,
    load (fun _ => none) truncating megakernelDocument "" = .ok cfg ∧
      ¬ Overlaid (fun _ => none) megakernelDocument (layered "") cfg := by
  have hoff : (load (fun _ => none) truncating megakernelDocument "").toOption.map
      (·.inference.cudaEngine.useMegakernel) = some false := by
    decide +kernel
  cases hload : load (fun _ => none) truncating megakernelDocument "" with
  | error e =>
    rw [hload] at hoff
    cases hoff
  | ok cfg =>
    rw [hload] at hoff
    refine ⟨cfg, rfl, ?_⟩
    rintro ⟨hfields, -⟩
    have hswitch : Entry.unread "use_megakernel" (·.useMegakernel) ∈ cudaEngineFields (F := ℚ) :=
      List.mem_of_getElem? (i := 10) rfl
    have hengine :=
      List.mem_map_of_mem (f := Entry.within "cuda_engine" InferenceConfig.cudaEngine) hswitch
    have hinference : _ ∈ inferenceFields (F := ℚ) :=
      List.mem_flatten_of_mem (List.mem_of_getElem? (i := 3) rfl) hengine
    have hroot :=
      List.mem_map_of_mem (f := Entry.within "inference" TrueLLMConfig.inference) hinference
    have hmem : _ ∈ schema (F := ℚ) :=
      List.mem_flatten_of_mem (List.mem_of_getElem? (i := 2) rfl) hroot
    have hon : Setting.bool cfg.inference.cudaEngine.useMegakernel = (.bool true : Setting ℚ) :=
      hfields _ hmem
    have hboth : cfg.inference.cudaEngine.useMegakernel = false := Option.some.inj hoff
    rw [hboth] at hon
    cases hon

end TruellmEngine.Config

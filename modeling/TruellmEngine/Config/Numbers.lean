/-
  The integers of a document, where `get<int>` is a narrowing cast.

  A document has 64 bits for an integer, a field 32, and a port 16. A load that succeeds stores
  the integers of the document exactly where each is in the range of its field, and the check of
  the port sees what the cast to 16 bits has left (`numbers_exact_iff`).
-/
import TruellmEngine.Config.Loading

namespace TruellmEngine.Config

open Lib

variable {D F : Type}

/-- The kinds of the fields that hold integers. -/
def Kind.numeric : Kind → Bool
  | .integer | .port | .integers => true
  | _ => false

/-- What `load` throws for a port that does not pass. -/
def portRejected : ConfigError :=
  .validation ("[config] Validation error: " ++ "server.port must be 1–65535")

/-! ## The check of the port -/

theorem ne_of_ite {α : Type} {c : Prop} [Decidable c] {a b m : α} (ha : a ≠ m) (hb : b ≠ m) :
    (if c then a else b) ≠ m := by
  split
  · exact ha
  · exact hb

/-- The text has another first character. -/
theorem ne_of_head {s t m : String} (h : s.toList.head?.isSome = true)
    (hne : s.toList.head? ≠ m.toList.head?) : s ++ t ≠ m := by
  intro hm
  rw [← hm, String.toList_append, List.head?_append, Option.or_of_isSome h] at hne
  exact hne rfl

/-- No other message of `validate` is that of the port. -/
theorem validate_port_iff [Floating F] (cfg : TrueLLMConfig F) :
    validate cfg = "server.port must be 1–65535" ↔ cfg.server.port = 0 := by
  unfold validate
  dsimp only
  constructor
  · intro h
    by_contra hport
    rw [if_neg hport] at h
    revert h
    simp only [String.append_assoc]
    exact ne_of_ite (by decide) <| ne_of_ite (by decide) <| ne_of_ite (by decide) <|
      ne_of_ite (by decide) <| ne_of_ite (ne_of_head rfl (by decide)) <|
      ne_of_ite (ne_of_head rfl (by decide)) <| ne_of_ite (ne_of_head rfl (by decide)) <|
      ne_of_ite (by decide) <| ne_of_ite (by decide) <| ne_of_ite (by decide) <|
      ne_of_ite (ne_of_head rfl (by decide)) <| ne_of_ite (ne_of_head rfl (by decide)) <|
      ne_of_ite (ne_of_head rfl (by decide)) <| ne_of_ite (by decide) <|
      ne_of_ite (ne_of_head rfl (by decide)) <| ne_of_ite (ne_of_head rfl (by decide)) (by decide)
  · intro hport
    rw [if_pos hport]

/-! ## Reading -/

/-- What reads a part of the document, and validates nothing. -/
def Reads {α : Type} (x : Except ConfigError α) : Prop :=
  ∀ e, x = .error e → e = .typeError ∨ e = .outOfRange

/-- Nothing fails for the form of the document. -/
def Formed {α : Type} (x : Except ConfigError α) : Prop :=
  x ≠ .error .typeError ∧ x ≠ .error .outOfRange

namespace Reads

variable {α β : Type}

theorem pure (a : α) : Reads (pure a) := by
  intro e h
  cases h

theorem bind {x : Except ConfigError α} {f : α → Except ConfigError β} (hx : Reads x)
    (hf : ∀ a, Reads (f a)) : Reads (x >>= f) := by
  cases x with
  | error e =>
    intro e' h
    exact hx e' (by cases h; rfl)
  | ok a => exact hf a

/-- Where the document has the form for what is read, the first part is read as well. -/
theorem formed {x : Except ConfigError α} {f : α → Except ConfigError β} (hx : Reads x)
    (h : Formed (x >>= f)) : ∃ a, x = .ok a ∧ (x >>= f) = f a ∧ Formed (f a) := by
  cases x with
  | error e =>
    rcases hx e rfl with rfl | rfl
    · exact absurd rfl h.1
    · exact absurd rfl h.2
  | ok a => exact ⟨a, rfl, rfl, h⟩

theorem contains (v : Toml D) (key : String) : Reads (v.contains key) := by
  intro e h
  cases v with
  | table entries => cases h
  | boolean | integer | floating | string | datetime | array =>
    cases h
    exact Or.inl rfl

theorem find (v : Toml D) (key : String) : Reads (v.find key) := by
  intro e h
  cases v with
  | table entries =>
    change (((Toml.table entries).at? key).elim _ _) = _ at h
    cases hkey : (Toml.table entries).at? key with
    | none =>
      rw [hkey] at h
      cases h
      exact Or.inr rfl
    | some w =>
      rw [hkey] at h
      cases h
  | boolean | integer | floating | string | datetime | array =>
    cases h
    exact Or.inl rfl

theorem inSection {v : Toml D} {key : String} {out : α}
    {parse : Toml D → Except ConfigError α} (h : ∀ w, Reads (parse w)) :
    Reads (inSection v key out parse) := by
  refine (contains v key).bind fun present => ?_
  cases present with
  | true => exact (find v key).bind h
  | false => exact Reads.pure out

/-- A section whose fields are only looked up. -/
theorem plain {v : Toml D} {key : String} {out : α} {f : Toml D → α} :
    Reads (Config.inSection v key out fun t => Pure.pure (f t)) :=
  inSection fun w => pure (f w)

end Reads

variable [Floating F] [Doubles D F] (env : String → Option String) (int : GetInt) (v : Toml D)

theorem profileOf_reads (profileOverride : String) : Reads (profileOf v profileOverride) := by
  unfold profileOf
  split
  · exact .pure _
  · refine (Reads.contains v "profile").bind fun present => ?_
    cases present with
    | false => exact .pure _
    | true =>
      refine (Reads.find v "profile").bind fun w => ?_
      cases w with
      | string s => exact .pure s
      | boolean | integer | floating | datetime | array | table =>
        intro e h
        cases h
        exact Or.inl rfl

theorem parseCompression_reads (out : CompressionConfig F) :
    Reads (parseCompression env int v out) :=
  .inSection fun _ => Reads.plain.bind fun _ => Reads.plain.bind fun _ =>
    Reads.plain.bind fun _ => Reads.plain.bind fun _ => Reads.plain.bind fun _ =>
    Reads.plain.bind fun _ => .pure _

theorem parseInference_reads (out : InferenceConfig F) :
    Reads (parseInference env int v out) :=
  .inSection fun t => Reads.plain.bind fun _ => Reads.plain.bind fun _ =>
    Reads.plain.bind fun _ => Reads.plain.bind fun _ =>
    (parseCompression_reads env int t out.compression).bind fun _ =>
    Reads.plain.bind fun _ => Reads.plain.bind fun _ => .pure _

theorem parseHardware_reads (out : HardwareConfig F) : Reads (parseHardware env int v out) :=
  .inSection fun _ => Reads.plain.bind fun _ => Reads.plain.bind fun _ =>
    Reads.plain.bind fun _ => .pure _

theorem parseRuntime_reads (out : RuntimeConfig) : Reads (parseRuntime env v out) := by
  refine .inSection fun _ => Reads.plain.bind fun _ =>
    (Reads.inSection fun extensions => ?_).bind fun _ => .pure _
  cases extensions <;> exact .pure _

theorem parsePlugins_reads (out : PluginConfig F) : Reads (parsePlugins env int v out) :=
  .inSection fun _ => Reads.plain.bind fun _ => .pure _

/-- A load of a document of the right form comes to the validation. -/
theorem load_validates {root : Toml D} {profileOverride profile : String}
    (hprofile : profileOf root profileOverride = .ok profile)
    (h : Formed (load (F := F) env int root profileOverride)) :
    ∃ cfg : TrueLLMConfig F,
      parseServer env int root (layered (F := F) profile).server = .ok cfg.server ∧
      load env int root profileOverride =
        if validate cfg ≠ "" then
          .error (.validation ("[config] Validation error: " ++ validate cfg))
        else .ok cfg := by
  obtain ⟨profile', hprofile', hload, h⟩ := (profileOf_reads root profileOverride).formed h
  obtain rfl : profile = profile' := Except.ok.inj (hprofile.symm.trans hprofile')
  obtain ⟨server, hserver, hmore, h⟩ := Reads.plain.formed h
  replace hload := hload.trans hmore
  obtain ⟨model, -, hmore, h⟩ := Reads.plain.formed h
  replace hload := hload.trans hmore
  obtain ⟨inference, -, hmore, h⟩ := (parseInference_reads env int root _).formed h
  replace hload := hload.trans hmore
  obtain ⟨sampling, -, hmore, h⟩ := Reads.plain.formed h
  replace hload := hload.trans hmore
  obtain ⟨logging, -, hmore, h⟩ := Reads.plain.formed h
  replace hload := hload.trans hmore
  obtain ⟨hardware, -, hmore, h⟩ := (parseHardware_reads env int root _).formed h
  replace hload := hload.trans hmore
  obtain ⟨runtime, -, hmore, h⟩ := (parseRuntime_reads env root _).formed h
  replace hload := hload.trans hmore
  obtain ⟨plugins, -, hmore, -⟩ := (parsePlugins_reads env int root _).formed h
  refine ⟨_, ?_, hload.trans hmore⟩
  exact hserver

/-- The port that the cast to 16 bits leaves of an integer. -/
theorem parseServer_port {root : Toml D} {out server : ServerConfig} {i : Int64}
    (hport : follow Toml.at? root ["server", "port"] = some (.integer i))
    (h : parseServer env truncating root out = .ok server) :
    (server.port.toNat : Int) = i.toInt % 65536 := by
  obtain ⟨t, hserver, ht⟩ := Option.bind_eq_some_iff.mp hport
  rcases inSection_ok h with ⟨t', hserver', hparse⟩ | ⟨hnone, -⟩
  · obtain rfl : t = t' := Option.some.inj (hserver.symm.trans hserver')
    obtain ⟨v, hv, hvi⟩ := Option.bind_eq_some_iff.mp ht
    cases hvi
    cases hparse
    change ((findInt truncating t "port" _).toUInt32.toUInt16.toNat : Int) = _
    unfold findInt Toml.findOr
    rw [hv]
    change (i.toInt32.toUInt32.toUInt16.toNat : Int) = _
    rw [toPort_eq, Int64.toInt_toInt32, Int.bmod]
    omega
  · rw [hserver] at hnone
    cases hnone

/-! ## Exact numbers -/

/-- Every integer field is what the document gives, or what it was. -/
def ExactNumbers (root : Toml D) (base cfg : TrueLLMConfig F) : Prop :=
  ∀ e ∈ schema, e.kind.numeric = true →
    e.get cfg = ((follow Toml.at? root e.path).bind (e.kind.means env)).getD (e.get base)

/-- Every integer that the document gives for a field is in the range of the field. -/
def NumbersFit (F : Type) [Floating F] (root : Toml D) : Prop :=
  ∀ e ∈ schema (F := F), e.kind.numeric = true →
    ∀ w, follow Toml.at? root e.path = some w → e.kind.Kept env w

/-- The check of the port passes just what leaves something in 16 bits. -/
theorem portRejected_iff {root : Toml D} {profileOverride profile : String} {i : Int64}
    (hprofile : profileOf root profileOverride = .ok profile)
    (hport : follow Toml.at? root ["server", "port"] = some (.integer i))
    (h : Formed (load (F := F) env truncating root profileOverride)) :
    load (F := F) env truncating root profileOverride = .error portRejected ↔
      i.toInt % 65536 = 0 := by
  obtain ⟨cfg, hserver, hload⟩ := load_validates env truncating hprofile h
  have hint := parseServer_port env hport hserver
  have hzero : cfg.server.port = 0 ↔ i.toInt % 65536 = 0 := by
    rw [← hint, ← UInt16.toNat_inj]
    exact Int.natCast_eq_zero.symm
  rw [← hzero, ← validate_port_iff, hload]
  unfold portRejected
  constructor
  · intro h
    split at h
    · exact String.append_right_inj _ |>.mp (ConfigError.validation.inj (Except.error.inj h))
    · cases h
  · intro h
    rw [h, if_pos (by decide)]

/-- A load stores the integers of a document just if they are in the ranges of their fields, and
    admits just the ports up to 65535 if the port is one of these, 0, or a multiple of 65536. -/
theorem numbers_exact_iff {root : Toml D} {profileOverride profile : String}
    (hprofile : profileOf root profileOverride = .ok profile) :
    (∀ cfg : TrueLLMConfig F, load env truncating root profileOverride = .ok cfg →
      (ExactNumbers env root (layered profile) cfg ↔ NumbersFit env F root)) ∧
    (∀ i : Int64, follow Toml.at? root ["server", "port"] = some (.integer i) →
      Formed (load (F := F) env truncating root profileOverride) →
      ((load (F := F) env truncating root profileOverride ≠ .error portRejected ↔
          1 ≤ i.toInt ∧ i.toInt ≤ 65535) ↔
        FitsPort i.toInt ∨ i.toInt % 65536 = 0)) := by
  constructor
  · intro cfg h
    exact forall₂_congr fun e he =>
      imp_congr_right fun _ => load_field_iff env h hprofile he
  · intro i hport hform
    rw [Ne, portRejected_iff env hprofile hport hform]
    unfold FitsPort
    omega

/-- `[server] port = 73616`, which is 65536 + 8080. -/
def portDocument : Toml ℚ := .table [("server", .table [("port", .integer 73616)])]

theorem numbers_exact_port : ∃ cfg : TrueLLMConfig ℚ,
    load (fun _ => none) truncating portDocument "" = .ok cfg ∧
      (ExactNumbers (fun _ => none) portDocument (layered "") cfg ↔
        NumbersFit (fun _ => none) ℚ portDocument) := by
  have hok : (load (fun _ => none) truncating portDocument "").isOk = true := by
    decide +kernel
  obtain ⟨cfg, hcfg⟩ := isOk_iff.mp hok
  exact ⟨cfg, hcfg, (numbers_exact_iff _ rfl).1 cfg hcfg⟩

/-- The port is admitted, and another one is stored. -/
theorem port_reduced : ∃ cfg : TrueLLMConfig ℚ,
    load (fun _ => none) truncating portDocument "" = .ok cfg ∧ cfg.server.port = 8080 ∧
      ¬ ExactNumbers (fun _ => none) portDocument (layered "") cfg := by
  have hstored : (load (fun _ => none) truncating portDocument "").toOption.map
      (·.server.port) = some 8080 := by
    decide +kernel
  cases hload : load (fun _ => none) truncating portDocument "" with
  | error e =>
    rw [hload] at hstored
    cases hstored
  | ok cfg =>
    rw [hload] at hstored
    have hport : cfg.server.port = 8080 := Option.some.inj hstored
    refine ⟨cfg, rfl, hport, ?_⟩
    intro hexact
    have hmem : Entry.port "port" ServerConfig.port ∈ serverFields (F := ℚ) :=
      List.mem_of_getElem? (i := 1) rfl
    have hserver := List.mem_map_of_mem
      (f := Entry.within "server" fun cfg : TrueLLMConfig ℚ => cfg.server) hmem
    have hschema : _ ∈ schema (F := ℚ) :=
      List.mem_flatten_of_mem (List.mem_of_getElem? (i := 0) rfl) hserver
    have hgiven : Setting.int cfg.server.port.toNat = (.int 73616 : Setting ℚ) :=
      hexact _ hschema rfl
    rw [hport] at hgiven
    injection hgiven with hgiven
    exact absurd hgiven (by decide)

end TruellmEngine.Config

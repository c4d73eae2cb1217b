/-
  `/v1/research` (`OpenAIRouter::register_routes`): the body is rewritten so that its metadata ask
  for the mode `research`, and the handler of chat completions goes on with it.

  What stands in the context under a key is told by the header before `truellm_metadata`, and by
  that before `extra_body` (`absorb_told`).

  `research_route`: behind the route everything is as it is without it, but for the mode and the
  effort. The mode is `research` unless the header names one. An effort in `extra_body` is never
  seen, because the one that is put into `truellm_metadata` for it has the last word.
-/
import TruellmEngine.Bridge.SubCallUsage
import TruellmEngine.Lib.CanonicalJson
import TruellmEngine.Server.AnthropicReply
import TruellmEngine.Server.AnthropicRouter

namespace TruellmEngine.Server

open Lib Bridge
open Lib.Json (value KeysAscend keysAscend_cons)

/-! ## Model -/

/-- The metadata of the body, replaced where they are no object. -/
def rootMetadata (body : Json) : Json :=
  ((body.field? "truellm_metadata").filter Json.isObject).getD (.object [])

/-- They are given the mode, and an effort if they name none. -/
def researchMetadata (body : Json) : Json :=
  let metadata := (rootMetadata body).setField "mode" (.string "research")
  if metadata.contains "effort" then metadata else metadata.setField "effort" (.string "medium")

/-- The body that the handler of chat completions gets, read back as it was written. -/
def researchBody (body : Json) : Json :=
  if body.isObject then body.setField "truellm_metadata" (researchMetadata body) else body

/-! ## What the metadata of a client come to -/

/-- The metadata of the header, if it is a document. -/
def headerMetadata (text : JsonText) (header : String) : Option Json :=
  if header = "" then none else text.parse (bytes header)

/-- What a client says under a key, the strongest place first. -/
def metadataTold (text : JsonText) (body : Json) (header key : String) : Option Json :=
  ((headerMetadata text header).bind (Json.field? key)).or
    (((body.field? "truellm_metadata").bind (Json.field? key)).or
      ((Context.contextMetadata body).bind (Json.field? key)))

/-- A value as it stands in the context. -/
def metadataText (text : JsonText) : Json → String
  | .string s => s
  | v => text.dump v

/-- The objects in the three places have each key once, as every object that was read. -/
structure MetadataOrdered (text : JsonText) (body : Json) (header : String) : Prop where
  extra : ∀ obj ∈ Context.contextMetadata body, obj.KeysOnce
  root : ∀ obj ∈ body.field? "truellm_metadata", obj.KeysOnce
  header : ∀ obj ∈ headerMetadata text header, obj.KeysOnce

section

variable {text : JsonText} {ctx ctx' : Context} {body : Json} {header : String}

theorem mergeFields_metadata {fields : List (String × Json)} (hkeys : KeysAscend fields)
    (h : Context.mergeObject text (.object fields) ctx = .ok ctx') (key : String) :
    ctx'.metadata key = ((fields.lookup key).map (metadataText text)).or (ctx.metadata key) := by
  change fields.foldlM _ ctx = _ at h
  induction fields generalizing ctx with
  | nil =>
    cases h
    rfl
  | cons f fields ih =>
    obtain ⟨hf, hfields⟩ := keysAscend_cons.mp hkeys
    rw [List.foldlM_cons] at h
    obtain ⟨next, hnext, h⟩ := bind_eq_ok.mp h
    have hset : next = ctx.set f.1 (some (metadataText text f.2)) := by
      obtain ⟨k, v⟩ := f
      cases v with
      | string s =>
        cases hnext
        rfl
      | null | boolean | unsigned | integer | float | array | object =>
        obtain ⟨val, hval, hnext⟩ := bind_eq_ok.mp hnext
        cases hnext
        rw [← (dumps_eq_ok.mp hval).2]
        rfl
    rw [ih hfields h, hset]
    show _ = (((f :: fields).lookup key).map _).or _
    rw [List.lookup_cons]
    by_cases hkey : key = f.1
    · subst hkey
      have hnone : fields.lookup f.1 = none :=
        List.lookup_eq_none_iff.mpr fun g hg => bne_iff_ne.mpr fun heq =>
          String.lt_irrefl _ (heq ▸ hf g hg)
      rw [hnone, beq_self_eq_true]
      unfold Context.set
      dsimp only
      rw [Function.update_self]
      rfl
    · rw [beq_eq_false_iff_ne.mpr hkey]
      unfold Context.set
      dsimp only
      rw [Function.update_of_ne hkey]

/-- One place. -/
theorem channel_metadata {channel : Option Json} (hkeys : ∀ obj ∈ channel, obj.KeysOnce)
    (h : (channel.elim (pure ctx) fun obj => ctx.mergeObject text obj) = Except.ok ctx')
    (key : String) :
    ctx'.metadata key =
      ((channel.bind (Json.field? key)).map (metadataText text)).or (ctx.metadata key) := by
  cases channel with
  | none =>
    cases h
    rfl
  | some obj =>
    cases obj with
    | object fields => exact mergeFields_metadata (hkeys _ rfl) h key
    | null | boolean | unsigned | integer | float | string | array =>
      cases h
      rfl

/-- The later of the three places has the last word on a key. -/
theorem absorb_told (hkeys : MetadataOrdered text body header)
    (h : Context.absorbClientMetadata text body header ctx = .ok ctx') (key : String) :
    ctx'.metadata key =
      ((metadataTold text body header key).map (metadataText text)).or (ctx.metadata key) := by
  obtain ⟨first, hfirst, h⟩ := bind_eq_ok.mp h
  obtain ⟨second, hsecond, h⟩ := bind_eq_ok.mp h
  have hheader : ((headerMetadata text header).elim (pure second)
      fun obj => second.mergeObject text obj) = Except.ok ctx' := by
    unfold headerMetadata
    split at h
    · rename_i hempty
      rw [if_pos hempty]
      exact h
    · rename_i hempty
      rw [if_neg hempty]
      exact h
  rw [channel_metadata hkeys.header hheader, channel_metadata hkeys.root hsecond,
    channel_metadata hkeys.extra hfirst]
  unfold metadataTold
  rw [Option.map_or, Option.map_or, Option.or_assoc, Option.or_assoc]

/-! ## The rewritten body -/

theorem researchBody_metadata (h : body.isObject = true) :
    (researchBody body).field? "truellm_metadata" = some (researchMetadata body) := by
  unfold researchBody
  rw [if_pos h]
  exact Json.field?_setField_self h _ _

theorem researchBody_field {key : String} (hne : key ≠ "truellm_metadata") (body : Json) :
    (researchBody body).field? key = body.field? key := by
  unfold researchBody
  split
  · exact Json.field?_setField_ne hne _ _
  · rfl

theorem researchBody_value {α : Type} {get : Json → Except TypeError α} {key : String} {dflt : α}
    (hne : key ≠ "truellm_metadata") (body : Json) :
    value get (researchBody body) key dflt = value get body key dflt := by
  unfold researchBody
  split
  · exact Json.value_setField_ne hne _ _
  · rfl

theorem researchBody_extra (body : Json) :
    Context.contextMetadata (researchBody body) = Context.contextMetadata body := by
  unfold Context.contextMetadata
  rw [researchBody_field (by decide)]

theorem rootMetadata_isObject (body : Json) : (rootMetadata body).isObject = true := by
  unfold rootMetadata
  cases hroot : (body.field? "truellm_metadata").filter Json.isObject with
  | none => rfl
  | some obj => exact (Option.filter_eq_some_iff.mp hroot).2

/-- Metadata that are no object name no key. -/
theorem rootMetadata_field (body : Json) (key : String) :
    (rootMetadata body).field? key = (body.field? "truellm_metadata").bind (Json.field? key) := by
  unfold rootMetadata
  cases body.field? "truellm_metadata" with
  | none => rfl
  | some obj => cases obj <;> rfl

theorem researchMetadata_mode (body : Json) :
    (researchMetadata body).field? "mode" = some (.string "research") := by
  unfold researchMetadata
  have hmode := Json.field?_setField_self (rootMetadata_isObject body) "mode" (.string "research")
  dsimp only
  split
  · exact hmode
  · rw [Json.field?_setField_ne (by decide), hmode]

theorem researchMetadata_effort (body : Json) :
    (researchMetadata body).field? "effort" =
      some (((body.field? "truellm_metadata").bind (Json.field? "effort")).getD
        (.string "medium")) := by
  have hobject := Json.isObject_setField (rootMetadata_isObject body) "mode" (.string "research")
  have hsame : ((rootMetadata body).setField "mode" (.string "research")).field? "effort" =
      (body.field? "truellm_metadata").bind (Json.field? "effort") := by
    rw [Json.field?_setField_ne (by decide), rootMetadata_field]
  unfold researchMetadata Json.contains
  dsimp only
  rw [hsame]
  cases heffort : (body.field? "truellm_metadata").bind (Json.field? "effort") with
  | none => exact Json.field?_setField_self hobject _ _
  | some v => exact hsame.trans heffort

theorem researchMetadata_other {key : String} (hmode : key ≠ "mode") (heffort : key ≠ "effort")
    (body : Json) : (researchMetadata body).field? key =
      (body.field? "truellm_metadata").bind (Json.field? key) := by
  unfold researchMetadata
  dsimp only
  split
  · rw [Json.field?_setField_ne hmode, rootMetadata_field]
  · rw [Json.field?_setField_ne heffort, Json.field?_setField_ne hmode, rootMetadata_field]

theorem sessionIn_research (body : Json) :
    sessionIn (some (researchMetadata body)) = sessionIn (body.field? "truellm_metadata") := by
  unfold sessionIn
  rw [Option.bind_some, researchMetadata_other (by decide) (by decide)]

/-- The session is the same: metadata that are no object have none. -/
theorem sessionIdOf_research (body : Json) :
    sessionIdOf (researchBody body) = sessionIdOf body := by
  by_cases hobject : body.isObject = true
  · unfold sessionIdOf
    rw [researchBody_metadata hobject, sessionIn_research, researchBody_extra]
  · unfold researchBody
    rw [if_neg hobject]

/-- Nothing else that the handler reads is changed. -/
theorem readRequest_research (dflt : ChatRequest) (body : Json) :
    readRequest text dflt (researchBody body) = readRequest text dflt body := by
  have hvalue : ∀ {α : Type} {get : Json → Except TypeError α} {key : String} {d : α},
      key ≠ "truellm_metadata" → value get (researchBody body) key d = value get body key d :=
    fun hne => researchBody_value hne body
  have hfield : ∀ {key : String}, key ≠ "truellm_metadata" →
      (researchBody body).field? key = body.field? key := fun hne => researchBody_field hne body
  have hstops : stopsOf (researchBody body) = stopsOf body := by
    unfold stopsOf
    rw [hfield (by decide)]
  have hclient : readClientTools (researchBody body) = readClientTools body := by
    unfold readClientTools
    rw [hfield (by decide)]
  have hschema : responseSchemaOf text (researchBody body) = responseSchemaOf text body := by
    unfold responseSchemaOf
    rw [hfield (by decide)]
  unfold readRequest checkFloat
  rw [hstops, hclient, hschema, sessionIdOf_research, hfield (by decide), hvalue (by decide)]
  simp only [hvalue (show "max_tokens" ≠ _ by decide), hvalue (show "stream" ≠ _ by decide),
    hvalue (show "tools" ≠ _ by decide), hvalue (show "temperature" ≠ _ by decide),
    hvalue (show "top_p" ≠ _ by decide)]

theorem researchMetadata_keysOnce {body : Json}
    (h : ∀ obj ∈ body.field? "truellm_metadata", obj.KeysOnce) :
    (researchMetadata body).KeysOnce := by
  have hroot : (rootMetadata body).KeysOnce := by
    unfold rootMetadata
    cases hfound : body.field? "truellm_metadata" with
    | none => exact List.Pairwise.nil
    | some obj =>
      cases obj with
      | object fields => exact h _ hfound
      | _ => exact List.Pairwise.nil
  have hmode := Json.keysOnce_setField hroot "mode" (.string "research")
  unfold researchMetadata
  dsimp only
  split
  · exact hmode
  · exact Json.keysOnce_setField hmode _ _

theorem MetadataOrdered.research (h : MetadataOrdered text body header)
    (hbody : body.isObject = true) : MetadataOrdered text (researchBody body) header where
  extra := by
    rw [researchBody_extra]
    exact h.extra
  root obj hobj := by
    rw [researchBody_metadata hbody] at hobj
    cases hobj
    exact researchMetadata_keysOnce h.root
  header := h.header

/-- What a client says on the route. -/
theorem told_research (hbody : body.isObject = true) (key : String) :
    metadataTold text (researchBody body) header key =
      ((headerMetadata text header).bind (Json.field? key)).or
        (((researchMetadata body).field? key).or
          ((Context.contextMetadata body).bind (Json.field? key))) := by
  unfold metadataTold
  rw [researchBody_metadata hbody, researchBody_extra]
  rfl

/-! ## The route -/

/-- What the handler of chat completions makes of a rewritten body. -/
structure ResearchRoute (text : JsonText) (body : Json) (header : String) (ctx ctx' : Context) :
    Prop where
  /-- Only a header asks for another mode. -/
  mode : ctx'.metadata "mode" = some (metadataText text
    (((headerMetadata text header).bind (Json.field? "mode")).getD (.string "research")))
  /-- The effort that stands in `extra_body` is never seen. -/
  effort : ctx'.metadata "effort" = some (metadataText text
    (((headerMetadata text header).bind (Json.field? "effort")).getD
      (((body.field? "truellm_metadata").bind (Json.field? "effort")).getD (.string "medium"))))
  /-- All else is as it is for `/v1/chat/completions`. -/
  other : ∀ key, key ≠ "mode" → key ≠ "effort" → ∀ direct,
    Context.absorbClientMetadata text body header ctx = .ok direct →
      ctx'.metadata key = direct.metadata key
  field : ∀ key, key ≠ "truellm_metadata" → (researchBody body).field? key = body.field? key
  request : ∀ dflt, readRequest text dflt (researchBody body) = readRequest text dflt body

theorem research_route (hbody : body.isObject = true) (hkeys : MetadataOrdered text body header)
    (h : Context.absorbClientMetadata text (researchBody body) header ctx = .ok ctx') :
    ResearchRoute text body header ctx ctx' := by
  have htold := absorb_told (hkeys.research hbody) h
  refine ⟨?_, ?_, ?_, fun _ hne => researchBody_field hne body,
    fun dflt => readRequest_research dflt body⟩
  · rw [htold, told_research hbody, researchMetadata_mode]
    cases (headerMetadata text header).bind (Json.field? "mode") <;> rfl
  · rw [htold, told_research hbody, researchMetadata_effort]
    cases (headerMetadata text header).bind (Json.field? "effort") <;> rfl
  · intro key hmode heffort direct hdirect
    rw [htold, told_research hbody, researchMetadata_other hmode heffort, absorb_told hkeys hdirect]
    rfl

end

/-- An effort in the place that the interface has for extensions. -/
def effortBody : Json :=
  .object [("extra_body", .object [("truellm", .object [("context_metadata",
    .object [("effort", .string "high")])])]), ("messages", .array [])]

theorem research_route_medium : ∃ direct ctx',
    Context.absorbClientMetadata CanonicalJson.canonical effortBody "" {} = .ok direct ∧
      direct.metadata "effort" = some "high" ∧
        ResearchRoute CanonicalJson.canonical effortBody "" {} ctx' ∧
          ctx'.metadata "effort" = some "medium" := by
  have hkeys : MetadataOrdered CanonicalJson.canonical effortBody "" := by
    refine ⟨?_, ?_, ?_⟩
    · rintro obj ⟨⟩
      exact List.pairwise_singleton _ _
    · rintro obj ⟨⟩
    · rintro obj ⟨⟩
  have hroute : ResearchRoute CanonicalJson.canonical effortBody "" {} _ :=
    research_route rfl hkeys rfl
  exact ⟨_, _, rfl, rfl, hroute, hroute.effort⟩

end TruellmEngine.Server

/-
  Skill-scoped tools, from the request of the Anthropic interface to the system message.

  Where all tools of a request are gated away, its body has no tools, and the handler shows
  the tools of the server in their place; where the declared lists have no pattern, nothing is
  gated. `gated_iff`: all tools shown are permitted exactly where a tool of the request is
  matched, or else the tools of the server are all permitted and lists without a pattern meet
  no tools. `server_tool_shown` is a request whose empty list leads to a tool of the server.
-/
import TruellmEngine.Server.AdvertisedTools
import TruellmEngine.Server.AnthropicRouter

namespace TruellmEngine.Server

open Lib Bridge
open Lib.Json (value getString getJson)

section

variable (text : JsonText) (bridge : Option PluginBridge) (dflt : ChatRequest) (areq : Json)

/-- A skill of the request declares `allowed_tools`. -/
def Declares : Prop := ∃ sk ∈ truellmArray areq "skills", sk.contains "allowed_tools" = true

/-- The tools that the handler adds to the system message for the request, once it gets
    there. -/
def shownTools : List Json :=
  match translateRequest text areq >>= readRequest text dflt >>= allSchemas text bridge with
  | .ok schemas => schemas
  | .error _ => []

/-- The tool has a name in the language of a declared pattern. -/
def Permitted (schema : Json) : Prop :=
  ∃ name, functionName schema = some name ∧
    ∃ pat ∈ skillToolPatterns areq, Glob '*' pat name.toList

/-- Where a skill declares its tools, no others are shown. -/
def Gated : Prop := Declares areq → ∀ schema ∈ shownTools text bridge dflt areq,
  Permitted areq schema

/-- The request is translated and read without an exception. -/
def Accepted : Prop := (translateRequest text areq >>= readRequest text dflt).isOk = true

/-- The tools of the server, as they are shown. -/
def serverTools : List Json :=
  match bridge with
  | none => []
  | some b => advertised text b.tools

/-- A pattern matches the name of the tool. -/
def matched (pats : List (List Char)) (t : Json) : Bool :=
  (functionName t).any fun name => pats.any fun p => toolGlobMatch p name.toList

end

/-! ## Gating -/

/-- A tool as the translation writes it. -/
def Written (t : Json) : Prop := ∃ name description parameters,
  t = schemaObject name description parameters

theorem requestTools_written {areq : Json} {tools : List Json} (h : requestTools areq = .ok tools) :
    ∀ t ∈ tools, Written t := by
  obtain ⟨clientTools, hclient, h⟩ := bind_eq_ok.mp h
  obtain ⟨agents, hagents, h⟩ := bind_eq_ok.mp h
  cases h
  intro t ht
  rcases List.mem_append.mp ht with ht | ht
  · unfold translateTools at hclient
    split at hclient
    · refine forall_of_mapM ?_ hclient t ht
      intro x _ y hy
      obtain ⟨name, -, hy⟩ := bind_eq_ok.mp hy
      obtain ⟨description, -, hy⟩ := bind_eq_ok.mp hy
      cases hy
      exact ⟨_, _, _, rfl⟩
    · cases hclient
      cases ht
  · obtain ⟨written, hwritten, h⟩ := bind_eq_ok.mp hagents
    cases h
    obtain ⟨o, ho, hid⟩ := List.mem_filterMap.mp ht
    refine forall_of_mapM (P := fun o => ∀ t ∈ o, Written t) ?_ hwritten o ho t hid
    intro x _ y hy t' ht'
    obtain ⟨name, -, hy⟩ := bind_eq_ok.mp hy
    split at hy
    · cases hy
      cases ht'
    · obtain ⟨description, -, hy⟩ := bind_eq_ok.mp hy
      cases hy
      cases ht'
      exact ⟨_, _, _, rfl⟩

theorem gateTools_eq {pats : List (List Char)} {tools : List Json}
    (hwritten : ∀ t ∈ tools, Written t) (hpats : pats ≠ []) :
    gateTools pats tools = .ok (tools.filter (matched pats)) := by
  unfold gateTools
  rw [if_neg (by rwa [List.isEmpty_iff])]
  rw [mapM_eq_ok (g := fun t => if matched pats t then some t else none)]
  · have hfilter : (tools.map fun t => if matched pats t then some t else none).filterMap id =
        tools.filter (matched pats) := by
      rw [List.filterMap_map, ← List.filterMap_eq_filter]
      rfl
    exact congrArg Except.ok hfilter
  · intro t ht
    obtain ⟨name, description, parameters, rfl⟩ := hwritten t ht
    rfl

theorem permitted_of_matched {areq t : Json} (h : matched (skillToolPatterns areq) t = true) :
    Permitted areq t := by
  obtain ⟨name, hname, h⟩ := (Option.any_eq_true _ _).mp h
  obtain ⟨pat, hpat, h⟩ := List.any_eq_true.mp h
  exact ⟨name, hname, pat, hpat, toolGlobMatch_sound h⟩

/-! ## The body -/

theorem lookup_map_ne {o : Option Json} {key k : String} (hne : k ≠ key) :
    (o.toList.map (key, ·)).lookup k = none := by
  cases o with
  | none => rfl
  | some v =>
    show List.lookup k [(key, v)] = none
    rw [List.lookup_cons, beq_eq_false_iff_ne.mpr hne]
    rfl

theorem toolChoiceField_lookup {areq : Json} {fields : List (String × Json)}
    (h : toolChoiceField areq = .ok fields) : fields.lookup "tools" = none := by
  unfold toolChoiceField at h
  split at h
  · cases h
    rfl
  · obtain ⟨tt, -, h⟩ := bind_eq_ok.mp h
    split at h
    · cases h
      rfl
    split at h
    · cases h
      rfl
    split at h
    · obtain ⟨name, -, h⟩ := bind_eq_ok.mp h
      cases h
      rfl
    · cases h
      rfl

theorem toolFields_lookup {areq : Json} {tools : List Json} {fields : List (String × Json)}
    (h : toolFields areq tools = .ok fields) :
    (fields.lookup "tools").getD (.array []) = .array tools := by
  unfold toolFields at h
  split at h
  · rename_i hempty
    cases h
    rw [List.isEmpty_iff.mp hempty]
    rfl
  · obtain ⟨choice, hchoice, h⟩ := bind_eq_ok.mp h
    cases h
    rw [List.lookup_append, toolChoiceField_lookup hchoice]
    rfl

/-- The tools of the translated body are those that were kept. -/
theorem translateRequest_tools {text : JsonText} {areq obody : Json}
    (h : translateRequest text areq = .ok obody) : ∃ tools kept, requestTools areq = .ok tools ∧
      gateTools (skillToolPatterns areq) tools = .ok kept ∧
      (obody.field? "tools").getD (.array []) = .array kept := by
  obtain ⟨model, -, h⟩ := bind_eq_ok.mp h
  obtain ⟨sys, -, h⟩ := bind_eq_ok.mp h
  obtain ⟨amsgs, -, h⟩ := bind_eq_ok.mp h
  obtain ⟨messages, -, h⟩ := bind_eq_ok.mp h
  obtain ⟨maxTokens, -, h⟩ := bind_eq_ok.mp h
  obtain ⟨tools, htools, h⟩ := bind_eq_ok.mp h
  obtain ⟨kept, hkept, h⟩ := bind_eq_ok.mp h
  obtain ⟨fields, hfields, h⟩ := bind_eq_ok.mp h
  refine ⟨tools, kept, htools, hkept, ?_⟩
  cases h
  unfold Json.field?
  dsimp only
  rw [List.lookup_append, List.lookup_append, List.lookup_append, List.lookup_append,
    List.lookup_append]
  have hhead : List.lookup "tools" [("extra_body", extraBody areq),
      ("max_tokens", Json.integer maxTokens.toInt64),
      ("messages", Json.array
        (if sys = "" then messages else roleMessage "system" sys :: messages)),
      ("model", Json.string model)] = none := rfl
  have hstream : List.lookup "tools" [("stream", Json.boolean false)] = none := rfl
  have htemperature : (passedOn areq "temperature").lookup "tools" = none :=
    lookup_map_ne (by decide)
  have htop : (passedOn areq "top_p").lookup "tools" = none := lookup_map_ne (by decide)
  have hstop : (stopField areq).lookup "tools" = none := lookup_map_ne (by decide)
  rw [hhead, hstop, hstream, htemperature, htop, Option.none_or, Option.none_or, Option.none_or,
    Option.none_or, Option.or_none]
  exact toolFields_lookup hfields

theorem readRequest_tools {dflt req : ChatRequest} {body : Json}
    (h : readRequest text dflt body = .ok req) :
    req.tools = (body.field? "tools").getD (.array []) := by
  obtain ⟨messages, -, h⟩ := bind_eq_ok.mp h
  obtain ⟨maxTokens, -, h⟩ := bind_eq_ok.mp h
  obtain ⟨-, -, h⟩ := bind_eq_ok.mp h
  obtain ⟨stream, -, h⟩ := bind_eq_ok.mp h
  obtain ⟨-, -, h⟩ := bind_eq_ok.mp h
  obtain ⟨tools, htools, h⟩ := bind_eq_ok.mp h
  cases h
  cases body with
  | object fields =>
    unfold value at htools
    show tools = (fields.lookup "tools").getD (.array [])
    dsimp only at htools
    cases hfield : fields.lookup "tools" with
    | none =>
      rw [hfield] at htools
      cases htools
      rfl
    | some v =>
      rw [hfield] at htools
      cases htools
      rfl
  | _ => cases htools

/-! ## What is shown -/

section

variable {text : JsonText} {bridge : Option PluginBridge} {dflt : ChatRequest} {areq : Json}

theorem shownTools_of_error (h : ¬ Accepted text dflt areq) :
    shownTools text bridge dflt areq = [] := by
  unfold shownTools
  unfold Accepted at h
  cases hreq : translateRequest text areq >>= readRequest text dflt with
  | error e => rfl
  | ok req =>
    rw [hreq] at h
    exact absurd rfl h

/-- The tools that were kept are shown; if there are none, those of the server. -/
theorem shownTools_eq (bridge : Option PluginBridge) (h : Accepted text dflt areq) : ∃ tools kept,
    requestTools areq = .ok tools ∧ gateTools (skillToolPatterns areq) tools = .ok kept ∧
      shownTools text bridge dflt areq =
        if kept = [] then serverTools text bridge else kept.filter Json.isObject := by
  obtain ⟨req, hreq⟩ := isOk_iff.mp h
  obtain ⟨obody, hbody, hread⟩ := bind_eq_ok.mp hreq
  obtain ⟨tools, kept, htools, hkept, hfield⟩ := translateRequest_tools hbody
  refine ⟨tools, kept, htools, hkept, ?_⟩
  have hreqTools : req.tools = .array kept := (readRequest_tools hread).trans hfield
  unfold shownTools
  rw [hreq]
  show (match allSchemas text bridge req with | .ok schemas => schemas | .error _ => []) = _
  by_cases hnone : kept = []
  · rw [if_pos hnone]
    have hempty : req.tools.isEmpty = true := by rw [hreqTools, hnone]; rfl
    cases bridge with
    | none =>
      unfold allSchemas
      rw [if_neg (by rw [hempty]; decide)]
      rfl
    | some b =>
      rw [allSchemas_registered b hempty]
      exact (advertised_eq text b.tools).symm
  · rw [if_neg hnone]
    have hsome : req.tools.isEmpty = false := by
      rw [hreqTools]
      exact List.isEmpty_eq_false_iff.mpr hnone
    unfold allSchemas
    rw [if_pos (by rw [hsome]; rfl), hreqTools]
    rfl

/-- The tools shown where there are patterns are permitted, unless those of the server are
    shown and are not. -/
theorem permitted_iff_of_patterns {tools : List Json} :
    (∀ schema ∈ (if tools.filter (matched (skillToolPatterns areq)) = [] then
        serverTools text bridge
      else (tools.filter (matched (skillToolPatterns areq))).filter Json.isObject),
      Permitted areq schema) ↔
    (∃ t ∈ tools, matched (skillToolPatterns areq) t = true) ∨
      ∀ schema ∈ serverTools text bridge, Permitted areq schema := by
  by_cases hkept : tools.filter (matched (skillToolPatterns areq)) = []
  · rw [if_pos hkept]
    constructor
    · exact Or.inr
    · rintro (⟨t, ht, hmatched⟩ | h)
      · exact absurd hmatched (List.filter_eq_nil_iff.mp hkept t ht)
      · exact h
  · rw [if_neg hkept]
    obtain ⟨t, ht⟩ := List.exists_mem_of_ne_nil _ hkept
    refine iff_of_true ?_ (Or.inl ⟨t, (List.mem_filter.mp ht).1, (List.mem_filter.mp ht).2⟩)
    intro schema hschema
    exact permitted_of_matched (List.mem_filter.mp (List.mem_filter.mp hschema).1).2

/-- Without a pattern nothing is permitted, and everything is shown. -/
theorem permitted_iff_of_no_pattern {tools : List Json} (hwritten : ∀ t ∈ tools, Written t)
    (hpats : skillToolPatterns areq = []) :
    (∀ schema ∈ (if tools = [] then serverTools text bridge else tools.filter Json.isObject),
      Permitted areq schema) ↔
    tools = [] ∧ ∀ schema ∈ serverTools text bridge, Permitted areq schema := by
  by_cases hnone : tools = []
  · rw [if_pos hnone, and_iff_right hnone]
  · rw [if_neg hnone]
    refine iff_of_false ?_ fun h => hnone h.1
    intro h
    obtain ⟨t, ht⟩ := List.exists_mem_of_ne_nil _ hnone
    obtain ⟨name, description, parameters, rfl⟩ := hwritten t ht
    obtain ⟨-, -, pat, hpat, -⟩ := h _ (List.mem_filter.mpr ⟨ht, rfl⟩)
    rw [hpats] at hpat
    exact List.not_mem_nil hpat

theorem not_matched_nil (t : Json) : matched [] t = false := by
  unfold matched
  cases functionName t <;> rfl

end

/-- All tools shown are permitted, exactly where a tool of the request is matched, or else the
    tools of the server are permitted and lists without a pattern meet no tools. -/
theorem gated_iff (text : JsonText) (bridge : Option PluginBridge) (dflt : ChatRequest)
    (areq : Json) :
    Gated text bridge dflt areq ↔ (Declares areq → Accepted text dflt areq →
      ∀ tools, requestTools areq = .ok tools →
        (∃ t ∈ tools, matched (skillToolPatterns areq) t = true) ∨
          ((skillToolPatterns areq = [] → tools = []) ∧
            ∀ schema ∈ serverTools text bridge, Permitted areq schema)) := by
  unfold Gated
  refine forall_congr' fun _ => ?_
  by_cases hacc : Accepted text dflt areq
  · obtain ⟨tools, kept, htools, hkept, hshown⟩ := shownTools_eq bridge hacc
    have hwritten := requestTools_written htools
    have hcond : ∀ C : List Json → Prop, (Accepted text dflt areq →
        ∀ tools, requestTools areq = .ok tools → C tools) ↔ C tools := by
      intro C
      constructor
      · intro h
        exact h hacc tools htools
      · intro h _ tools' htools'
        rw [htools] at htools'
        cases htools'
        exact h
    rw [hshown, hcond]
    by_cases hpats : skillToolPatterns areq = []
    · have hall : kept = tools := by
        rw [hpats] at hkept
        exact (Except.ok.inj hkept).symm
      have hunmatched : ¬ ∃ t ∈ tools, matched (skillToolPatterns areq) t = true := by
        rintro ⟨t, -, ht⟩
        rw [hpats, not_matched_nil] at ht
        cases ht
      rw [hall, permitted_iff_of_no_pattern hwritten hpats, or_iff_right hunmatched,
        forall_prop_of_true hpats]
    · rw [gateTools_eq hwritten hpats] at hkept
      obtain rfl := Except.ok.inj hkept
      rw [permitted_iff_of_patterns]
      exact or_congr Iff.rfl (and_iff_right fun h => absurd h hpats).symm
  · rw [shownTools_of_error hacc]
    exact iff_of_true (fun _ h => absurd h List.not_mem_nil) fun h => absurd h hacc

/-- A request without tools, and a skill that permits `Read`. -/
def readerRequest : Json := .object [
  ("messages", .array [roleMessage "user" "hi"]),
  ("truellm", .object [("skills", .array [.object [
    ("allowed_tools", .array [.string "Read"]), ("name", .string "reader")]])])]

/-- A server with one tool, and its schema. -/
def shellServer : PluginBridge where
  tools := { remoteEntries := [{
    pluginId := "shell"
    toolName := "run"
    schemaJson := "\x7b\"function\":\x7b\"name\":\"shell.run\"\x7d\x7d"
    run := fun _ ctx => ({}, ctx) }] }

/-- Reads the text of this schema. -/
def shellText : JsonText where
  parse raw :=
    if raw = bytes "[\x7b\"function\":\x7b\"name\":\"shell.run\"\x7d\x7d]" then
      some (.array [.object [("function", .object [("name", .string "shell.run")])]])
    else none
  dump _ := ""

/-- The request is answered with the tool `run`, which no skill permits. -/
theorem server_tool_shown :
    (shownTools shellText (some shellServer) { messages := .null } readerRequest).map
        functionName = [some "run"] ∧
      ¬ Gated shellText (some shellServer) { messages := .null } readerRequest := by
  have hshown : (shownTools shellText (some shellServer) { messages := .null } readerRequest).map
      functionName = [some "run"] := by decide
  refine ⟨hshown, ?_⟩
  intro h
  obtain ⟨schema, hmem, hname⟩ := List.mem_map.mp (hshown ▸ List.mem_singleton_self (some "run"))
  obtain ⟨name, hname', pat, hpat, hmatch⟩ := h ⟨_, List.mem_singleton_self _, rfl⟩ schema hmem
  rw [hname] at hname'
  cases hname'
  have hpats : skillToolPatterns readerRequest = ["Read".toList] := by decide
  rw [hpats, List.mem_singleton] at hpat
  rw [hpat] at hmatch
  nomatch hmatch

end TruellmEngine.Server

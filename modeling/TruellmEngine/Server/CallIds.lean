/-
  The ids of tool calls: those that a client is handed, and those that match results to calls
  in the tool loop.

  A model may give ids, a bare call is given `call_0`, and what has none is counted: by its
  place for a client, by its round in the loop. `identified_iff`: the ids tell the calls apart
  exactly where the model's own ids do and no default in use is one of them, and in the loop
  only if moreover a round has one call without an id at most and its ids are new to the
  conversation.
-/
import Mathlib.Data.Option.Basic
import TruellmEngine.Lib.Defaults
import TruellmEngine.Server.ToolRounds

namespace TruellmEngine.Server

open Lib Bridge
open Lib.Json (value valueAt getString getJson)

/-- The id that a call brings. -/
def ownId (call : Json) : Option String :=
  match call.field? "id" with
  | some (.string id) => some id
  | _ => none

/-- What stands for an id, by a place or by a round. -/
def defaultId (n : Nat) : String := "call_" ++ toString n

/-- The ids of the calls that a message makes. -/
def messageIds (m : Json) : List String :=
  match toolCallsOf m with
  | some calls => calls.items.filterMap ownId
  | none => []

/-- The ids of the calls in a conversation. -/
def conversationIds (messages : Json) : List String := (messages.items.map messageIds).flatten

/-- The calls that a client is handed have ids of their own: those of the model are distinct,
    and none of them is the default of a call without one. -/
structure Distinct (calls : List Json) : Prop where
  own : (calls.filterMap ownId).Nodup
  apart : ∀ (i : Nat) call, calls[i]? = some call → ownId call = none →
    defaultId i ∉ calls.filterMap ownId

/-- The calls of a round are apart from each other, and from the calls before them. -/
structure RoundDistinct (earlier : List String) (toolRound : Nat) (calls : List Json) : Prop where
  own : (calls.filterMap ownId).Nodup
  one : calls.countP (fun call => (ownId call).isNone) ≤ 1
  apart : (∃ call ∈ calls, ownId call = none) → defaultId toolRound ∉ calls.filterMap ownId
  new : ∀ call ∈ calls, callId toolRound call ∉ earlier

theorem defaultId_injective : Function.Injective defaultId := by
  intro m n h
  have hdigits : ∀ n : Nat, (defaultId n).toList = "call_".toList ++ Nat.toDigits 10 n := by
    intro n
    show ("call_" ++ String.ofList (Nat.toDigits 10 n)).toList = _
    simp only [String.toList_append, String.toList_ofList]
  have hsame := congrArg String.toList h
  rw [hdigits, hdigits] at hsame
  have hback := congrArg (Nat.ofDigitChars 10 · 0) (List.append_cancel_left hsame)
  simpa [Nat.ofDigitChars_ten_toDigits] using hback

/-! ## The ids of the client -/

theorem getString_id {call : Json} {dflt id : String}
    (h : value getString call "id" dflt = .ok id) :
    id = (ownId call).getD dflt := by
  unfold ownId
  cases call with
  | object fields =>
    unfold value at h
    dsimp only at h
    show id = (match fields.lookup "id" with | some (.string id) => some id | _ => none).getD dflt
    cases hid : fields.lookup "id" with
    | none =>
      rw [hid] at h
      cases h
      rfl
    | some v =>
      rw [hid] at h
      cases v with
      | string s =>
        cases h
        rfl
      | _ => cases h
  | _ => cases h

theorem value_ownId {call : Json} {dflt id : String} (h : ownId call = some id) :
    value getString call "id" dflt = .ok id := by
  unfold ownId at h
  split at h
  · rename_i s hid
    cases h
    cases call with
    | object fields =>
      have hlookup : fields.lookup "id" = some (.string id) := hid
      unfold value
      dsimp only
      rw [hlookup]
      rfl
    | _ => cases hid
  · cases h

theorem canonicalCall_id {text : JsonText} {idx : Nat} {call facing : Json}
    (h : canonicalCall text idx call = .ok facing) :
    ownId facing = some ((ownId call).getD (defaultId idx)) := by
  obtain ⟨fn, -, h⟩ := bind_eq_ok.mp h
  obtain ⟨id, hid, h⟩ := bind_eq_ok.mp h
  obtain ⟨name, -, h⟩ := bind_eq_ok.mp h
  obtain ⟨args, -, h⟩ := bind_eq_ok.mp h
  cases h
  exact congrArg some (getString_id hid)

theorem facing_ids {text : JsonText} {calls facing : List Json}
    (h : canonicalToolCalls text calls = .ok facing) :
    facing.map ownId = (fill defaultId 0 (calls.map ownId)).map some := by
  rw [fill_eq_map, List.zipIdx_map, List.map_map, List.map_map]
  exact map_of_mapM (fun c facing hc => canonicalCall_id hc) h

theorem reduceOption_ids (calls : List Json) :
    (calls.map ownId).reduceOption = calls.filterMap ownId := by
  unfold List.reduceOption
  rw [List.filterMap_map]
  rfl

theorem mem_ids {calls : List Json} {id : String} :
    some id ∈ calls.map ownId ↔ id ∈ calls.filterMap ownId := by
  rw [← reduceOption_ids, List.reduceOption_mem_iff]

/-- The ids that a client is handed are distinct just if the model's leave them so. -/
theorem facing_nodup_iff {text : JsonText} {calls facing : List Json}
    (h : canonicalToolCalls text calls = .ok facing) :
    (facing.map ownId).Nodup ↔ Distinct calls := by
  rw [facing_ids h, List.nodup_map_iff (Option.some_injective String),
    nodup_fill_iff defaultId_injective, reduceOption_ids]
  constructor
  · rintro ⟨hown, hapart⟩
    refine ⟨hown, fun i call hcall hnone hmem => ?_⟩
    refine hapart i ?_ (mem_ids.mpr (by rwa [Nat.zero_add]))
    rw [List.getElem?_map, hcall, Option.map_some, hnone]
  · rintro ⟨hown, hapart⟩
    refine ⟨hown, fun i hi hmem => ?_⟩
    rw [List.getElem?_map] at hi
    obtain ⟨call, hcall, hnone⟩ := Option.map_eq_some_iff.mp hi
    rw [Nat.zero_add] at hmem
    exact hapart i call hcall hnone (mem_ids.mp hmem)

/-! ## The ids of a round -/

theorem callId_eq (toolRound : Nat) (call : Json) :
    callId toolRound call = (ownId call).getD (defaultId toolRound) := by
  unfold callId valueAt
  cases hown : ownId call with
  | some id => rw [value_ownId hown, Option.getD_some]
  | none =>
    split
    · rename_i id hid
      rw [getString_id hid, hown]
      rfl
    · rfl

/-- The ids of a round are distinct just if the model's leave them so. -/
theorem round_nodup_iff (toolRound : Nat) (calls : List Json) :
    (calls.map (callId toolRound)).Nodup ↔ (calls.filterMap ownId).Nodup ∧
      calls.countP (fun call => (ownId call).isNone) ≤ 1 ∧
      ((∃ call ∈ calls, ownId call = none) → defaultId toolRound ∉ calls.filterMap ownId) := by
  have hids : calls.map (callId toolRound) =
      (calls.map ownId).map fun o => o.getD (defaultId toolRound) := by
    rw [List.map_map]
    exact List.map_congr_left fun call _ => callId_eq toolRound call
  rw [hids, nodup_getD_iff, reduceOption_ids, List.countP_map, mem_ids, List.mem_map]
  rfl

theorem roundDistinct_iff {earlier : List String} {toolRound : Nat} {calls : List Json} :
    RoundDistinct earlier toolRound calls ↔ (calls.map (callId toolRound)).Nodup ∧
      ∀ id ∈ calls.map (callId toolRound), id ∉ earlier := by
  rw [round_nodup_iff, List.forall_mem_map]
  exact ⟨fun h => ⟨⟨h.own, h.one, h.apart⟩, h.new⟩, fun h => ⟨h.1.1, h.1.2.1, h.1.2.2, h.2⟩⟩

/-- Results that match one call each still do with new ones, just if these have new ids. -/
theorem once_append_iff {results calls : List String} (h : ∀ id ∈ results, calls.count id = 1)
    (new : List String) :
    (∀ id ∈ results ++ new, (calls ++ new).count id = 1) ↔
      new.Nodup ∧ ∀ id ∈ new, id ∉ calls := by
  constructor
  · intro hall
    have hnew : ∀ id ∈ new, new.count id = 1 ∧ calls.count id = 0 := by
      intro id hid
      have hone := hall id (List.mem_append_right _ hid)
      have hpos := List.count_pos_iff.mpr hid
      rw [List.count_append] at hone
      omega
    refine ⟨List.nodup_iff_count_le_one.mpr fun id => ?_, fun id hid => ?_⟩
    · by_cases hid : id ∈ new
      · exact (hnew id hid).1.le
      · rw [List.count_eq_zero_of_not_mem hid]
        exact Nat.zero_le 1
    · exact List.count_eq_zero.mp (hnew id hid).2
  · rintro ⟨hnodup, hapart⟩ id hid
    rw [List.count_append]
    rcases List.mem_append.mp hid with hid | hid
    · have hcall : id ∈ calls := List.count_pos_iff.mp (by rw [h id hid]; exact Nat.one_pos)
      rw [h id hid, List.count_eq_zero_of_not_mem fun hnew => hapart id hnew hcall]
    · rw [List.count_eq_zero_of_not_mem (hapart id hid), List.count_eq_one_of_mem hnodup hid]

/-! ## The loop -/

theorem messageIds_setContent (m v : Json) :
    messageIds (m.setField "content" v) = messageIds m := by
  unfold messageIds toolCallsOf
  rw [Json.field?_setField_ne (by decide)]

theorem messageIds_callingTurn (result : GenerateResult) (toolCalls : List Json) :
    messageIds (callingTurn result toolCalls) = toolCalls.filterMap ownId := by
  cases toolCalls with
  | nil => rfl
  | cons call toolCalls => rfl

theorem ResultsOf.messageIds {toolRound : Nat} {toolCalls results : List Json}
    (h : ResultsOf toolRound toolCalls results) : (results.map messageIds).flatten = [] := by
  induction h with
  | nil => rfl
  | cons hm _ ih =>
    obtain ⟨body, rfl⟩ := hm
    rw [List.map_cons, List.flatten_cons, ih]
    rfl

/-- A round adds the ids that its calls bring. -/
theorem toolRoundMessages_ids (text : JsonText) (env : ChatEnv) (tools : ToolRegistry)
    (toolRound : Nat) (result : GenerateResult) (toolCalls : List Json) (messages : Json) :
    Gives (fun messages' => conversationIds messages' =
        conversationIds messages ++ toolCalls.filterMap ownId)
      (toolRoundMessages text env tools toolRound result toolCalls messages) := by
  intro p messages' q h
  obtain ⟨ms, results, rfl, hsame, hresults⟩ :=
    toolRoundMessages_map text env messageIds_setContent _ _ _ _ _ _ _ _ h
  unfold conversationIds
  show (ms.map messageIds).flatten = _
  rw [hsame, List.map_append, List.map_cons, List.flatten_append, List.flatten_cons,
    messageIds_callingTurn, hresults.messageIds, List.append_nil]

theorem ownIds_sublist (toolRound : Nat) (toolCalls : List Json) :
    (toolCalls.filterMap ownId).Sublist (toolCalls.map (callId toolRound)) := by
  induction toolCalls with
  | nil => exact .slnil
  | cons call toolCalls ih =>
    rw [List.map_cons, callId_eq]
    cases hown : ownId call with
    | none =>
      rw [List.filterMap_cons_none hown]
      exact ih.cons _
    | some id =>
      rw [List.filterMap_cons_some hown]
      exact ih.cons_cons id

namespace ToolLoop

/-- The calls and the results that a conversation shows are those from before the loop and these. -/
structure Recorded (messages now : Json) (ids : List String) : Prop where
  results : toolEntries now = toolEntries messages ++ ids
  calls : (conversationIds now).Sublist (conversationIds messages ++ ids)

/-- What the conversation shows in each phase. -/
def PhaseRecorded (messages : Json) (s : ToolLoop) : Prop :=
  match s.phase with
  | .generating => Recorded messages s.messages s.rounds.flatten
  | .dispatching toolCalls _ => ∃ ids,
      s.rounds.flatten = ids ++ toolCalls.map (callId s.toolRound) ∧
        Recorded messages s.messages ids
  | .ended _ => ∃ ids, ids <+: s.rounds.flatten ∧ Recorded messages s.messages ids

/-- Each result has the id of one call of the conversation, and of one only. -/
def OneCallEach (messages : Json) (s : ToolLoop) : Prop :=
  ∀ id ∈ toolEntries messages ++ s.rounds.flatten,
    (conversationIds messages ++ s.rounds.flatten).count id = 1

/-- The conversation shows results and calls of its rounds only, and each result has one call. -/
structure Identified (messages : Json) (s : ToolLoop) : Prop where
  results : toolEntries s.messages <+: toolEntries messages ++ s.rounds.flatten
  calls : (conversationIds s.messages).Sublist (conversationIds messages ++ s.rounds.flatten)
  once : OneCallEach messages s

/-- The calls that a generation leads to are distinct, from each other and from all before. -/
def CallsDistinct (text : JsonText) (env : ChatEnv) (bridge : Option PluginBridge)
    (req : ChatRequest) (messages : Json) (s : ToolLoop) (_ : Unit) : Prop :=
  s.phase = .generating → s.toolRound ≤ env.toolMaxRounds.toInt → ∀ toolCalls tools,
    decideRound text bridge req (env.generate s.nextUses) = .ok (.inr (toolCalls, tools)) →
      RoundDistinct (conversationIds messages ++ s.rounds.flatten) s.toolRound toolCalls

section

variable {text : JsonText} {env : ChatEnv} {bridge : Option PluginBridge} {req : ChatRequest}
  {messages : Json} {s t : ToolLoop}

theorem Recorded.shown {ids : List String} (h : Recorded messages s.messages ids)
    (hids : ids <+: s.rounds.flatten) :
    toolEntries s.messages <+: toolEntries messages ++ s.rounds.flatten ∧
      (conversationIds s.messages).Sublist (conversationIds messages ++ s.rounds.flatten) := by
  rw [h.results]
  exact ⟨(List.prefix_append_right_inj _).mpr hids,
    h.calls.trans (hids.sublist.append_left _)⟩

theorem PhaseRecorded.shown (h : s.PhaseRecorded messages) :
    toolEntries s.messages <+: toolEntries messages ++ s.rounds.flatten ∧
      (conversationIds s.messages).Sublist (conversationIds messages ++ s.rounds.flatten) := by
  unfold PhaseRecorded at h
  split at h
  · exact h.shown (List.prefix_refl _)
  · obtain ⟨ids, hids, h⟩ := h
    exact h.shown ⟨_, hids.symm⟩
  · obtain ⟨ids, hids, h⟩ := h
    exact h.shown hids

theorem PhaseRecorded.step (h : s.PhaseRecorded messages)
    (hstep : s.step text env bridge req () = some t) : t.PhaseRecorded messages := by
  unfold PhaseRecorded at h
  cases step_cases hstep with
  | throws hphase hround | replies hphase hround | stale hphase hround =>
    rw [hphase] at h
    exact ⟨_, List.prefix_refl _, h⟩
  | calls hphase hround hdecide =>
    rw [hphase] at h
    refine ⟨s.rounds.flatten, ?_, h⟩
    show (s.rounds ++ [_]).flatten = _
    rw [List.flatten_append, List.flatten_singleton]
    rfl
  | fails hphase hdispatch | overBudget hphase hdispatch =>
    rw [hphase] at h
    obtain ⟨ids, hids, h⟩ := h
    exact ⟨ids, ⟨_, hids.symm⟩, h⟩
  | goesOn hphase hdispatch =>
    rw [hphase] at h
    obtain ⟨ids, hids, h⟩ := h
    obtain ⟨⟨q, hbehind⟩, -, -⟩ := dispatchRound_inr hdispatch
    obtain ⟨ms, -, hentries⟩ := toolRoundMessages_entries text env _ _ _ _ _ _ _ _ hbehind
    have hcalls := toolRoundMessages_ids text env _ _ _ _ _ _ _ _ hbehind
    show Recorded messages _ s.rounds.flatten
    rw [hids]
    constructor
    · rw [hentries, h.results, List.append_assoc]
    · rw [hcalls, ← List.append_assoc]
      exact h.calls.append (ownIds_sublist _ _)

/-- Only a generation that calls tools adds results. -/
theorem step_once_iff (h : OneCallEach messages s)
    (hstep : s.step text env bridge req () = some t) :
    OneCallEach messages t ↔ s.CallsDistinct text env bridge req messages () := by
  cases step_cases hstep with
  | throws hphase hround hdecide | replies hphase hround hdecide =>
    refine iff_of_true h fun _ _ toolCalls tools hcalls => ?_
    rw [hdecide] at hcalls
    cases hcalls
  | calls hphase hround hdecide =>
    rename_i toolCalls tools
    have hflatten : (s.rounds ++ [toolCalls.map (callId s.toolRound)]).flatten =
        s.rounds.flatten ++ toolCalls.map (callId s.toolRound) := by
      rw [List.flatten_append, List.flatten_singleton]
    unfold OneCallEach
    dsimp only
    rw [hflatten, ← List.append_assoc, ← List.append_assoc, once_append_iff h,
      ← roundDistinct_iff]
    constructor
    · intro hdistinct _ _ toolCalls' tools' hcalls
      rw [hdecide] at hcalls
      cases hcalls
      exact hdistinct
    · exact fun hcalls => hcalls hphase hround toolCalls tools hdecide
  | stale hphase hround => exact iff_of_true h fun _ hle => absurd hle hround
  | fails hphase | overBudget hphase | goesOn hphase =>
    refine iff_of_true h fun hgen => ?_
    rw [hphase] at hgen
    cases hgen

/-- What a client is handed of a generation. -/
theorem handed_nodup_iff {result : GenerateResult} {answer : String} {facing : List Json}
    (h : decideRound text bridge req result = .ok (.inl (.answer answer facing))) :
    (facing.map ownId).Nodup ↔ (clientTools req = true →
      ∀ calls, parseToolCalls text result.text = .ok calls → Distinct calls) := by
  unfold decideRound at h
  split at h
  · cases h
  · obtain ⟨toolCalls, hparse, h⟩ := bind_eq_ok.mp h
    rw [hparse]
    split at h
    · rename_i hempty
      cases h
      rw [List.isEmpty_iff] at hempty
      refine iff_of_true List.nodup_nil fun _ calls hcalls => ?_
      cases hcalls
      rw [hempty]
      exact ⟨List.nodup_nil, fun i call hcall => by cases hcall⟩
    split at h
    · rename_i hclient
      obtain ⟨canonical, hcanonical, h⟩ := bind_eq_ok.mp h
      cases h
      rw [facing_nodup_iff hcanonical]
      constructor
      · intro hdistinct _ calls hcalls
        cases hcalls
        exact hdistinct
      · exact fun hall => hall hclient toolCalls rfl
    · rename_i hserver
      have hnone : facing = [] := by
        split at h
        · cases h
          rfl
        split at h
        · cases h
          rfl
        · cases h
      rw [hnone]
      exact iff_of_true List.nodup_nil fun hclient => absurd hclient hserver

/-- From a conversation in which each result has one call. -/
theorem allStates_identified_iff (hrecorded : s.PhaseRecorded messages)
    (honce : OneCallEach messages s) (n : Nat) :
    AllStates (step text env bridge req) (Identified messages) s (List.replicate n ()) ↔
      AllSteps (step text env bridge req) (CallsDistinct text env bridge req messages) s
        (List.replicate n ()) := by
  refine allStates_iff_allSteps (I := fun s => s.PhaseRecorded messages ∧ OneCallEach messages s)
    ?_ ?_ ?_ ⟨hrecorded, honce⟩ _
  · exact fun s h => ⟨h.1.shown.1, h.1.shown.2, h.2⟩
  · exact fun s a t h hok hstep => ⟨h.1.step hstep, (step_once_iff h.2 hstep).mpr hok⟩
  · exact fun s a t h hbad hstep ht => hbad ((step_once_iff h.2 hstep).mp ht.once)

end

/-- The ids that a client is handed are distinct, and in the loop each result has one call,
    exactly where the calls of the model are distinct. -/
theorem identified_iff (text : JsonText) (env : ChatEnv) (bridge : Option PluginBridge)
    (req : ChatRequest) :
    (∀ result answer facing,
      decideRound text bridge req result = .ok (.inl (.answer answer facing)) →
        ((facing.map ownId).Nodup ↔ (clientTools req = true →
          ∀ calls, parseToolCalls text result.text = .ok calls → Distinct calls))) ∧
    ∀ (progress : Progress) (messages : Json) (greq : GenerateRequest) (n : Nat),
      AllStates (step text env bridge req) (Identified messages)
          { progress := progress, messages := messages, greq := greq } (List.replicate n ()) ↔
        (∀ id ∈ toolEntries messages, (conversationIds messages).count id = 1) ∧
        AllSteps (step text env bridge req) (CallsDistinct text env bridge req messages)
          { progress := progress, messages := messages, greq := greq } (List.replicate n ()) := by
  refine ⟨fun result answer facing h => handed_nodup_iff h, fun progress messages greq n => ?_⟩
  have hrecorded : PhaseRecorded messages
      { progress := progress, messages := messages, greq := greq } :=
    ⟨(List.append_nil _).symm, (List.append_nil _).symm ▸ .refl _⟩
  have honce : OneCallEach messages { progress := progress, messages := messages, greq := greq } ↔
      ∀ id ∈ toolEntries messages, (conversationIds messages).count id = 1 := by
    unfold OneCallEach
    rw [List.flatten_nil, List.append_nil, List.append_nil]
  constructor
  · intro h
    have hstart := h.head.once
    exact ⟨honce.mp hstart, (allStates_identified_iff hrecorded hstart n).mp h⟩
  · rintro ⟨hstart, h⟩
    exact (allStates_identified_iff hrecorded (honce.mpr hstart) n).mpr h

/-- What the model says, and what is read: one call with the id that stands for the other. -/
def twoCalls : List UInt8 :=
  bytes ("\x7b\"tool_calls\":[\x7b\"function\":\x7b\"name\":\"clock\"\x7d,\"id\":\"call_1\"\x7d," ++
    "\x7b\"function\":\x7b\"name\":\"clock\"\x7d\x7d]\x7d")

def twoCallsText : JsonText where
  parse raw :=
    let fn : Json := .object [("name", .string "clock")]
    if raw = twoCalls then
      some (.object [("tool_calls", .array [.object [("function", fn), ("id", .string "call_1")],
        .object [("function", fn)]])])
    else none
  dump _ := ""

/-- A client is handed one id twice, and two rounds of a bare call have one id. -/
theorem one_id_twice :
    (∃ answer facing,
      decideRound twoCallsText none { messages := .array [], delegatesTools := true }
        { text := twoCalls } = .ok (.inl (.answer answer facing)) ∧
      facing.map ownId = [some "call_1", some "call_1"] ∧ ¬ (facing.map ownId).Nodup) ∧
    let step := step clockText clockEnv (some clockBridge) { messages := .array [] }
    let start : ToolLoop := { progress := { ctx := none }, messages := .array [], greq := {
      tokens := [] } }
    (run step start (List.replicate 4 ())).map (fun s => toolEntries s.messages) =
        some ["call_0", "call_0"] ∧
      ¬ AllStates step (Identified (.array [])) start (List.replicate 4 ()) := by
  refine ⟨⟨_, _, rfl, rfl, by decide⟩, ?_⟩
  intro step start
  have hentries : (run step start (List.replicate 4 ())).map (fun s => toolEntries s.messages) =
      some ["call_0", "call_0"] := by
    decide
  have hrounds : (run step start (List.replicate 4 ())).map (fun s => s.rounds) =
      some [["call_0"], ["call_0"]] := by
    decide
  refine ⟨hentries, fun h => ?_⟩
  obtain ⟨s, hs, hrounds⟩ := Option.map_eq_some_iff.mp hrounds
  have honce := (h.last hs).once
  unfold OneCallEach at honce
  rw [hrounds] at honce
  exact absurd (honce "call_0" (by decide)) (by decide)

/-- One round of a bare call. -/
theorem one_call_identified :
    AllStates (step clockText clockEnv (some clockBridge) { messages := .array [] })
      (Identified (.array []))
      { progress := { ctx := none }, messages := .array [], greq := { tokens := [] } }
      (List.replicate 2 ()) := by
  refine ((identified_iff clockText clockEnv (some clockBridge) { messages := .array [] }).2
    _ _ _ _).mpr ⟨?_, ?_⟩
  · exact fun id hid => absurd hid List.not_mem_nil
  · intro t ht
    cases ht
    refine ⟨?_, ?_⟩
    · intro _ _ toolCalls tools hcalls
      cases hcalls
      exact roundDistinct_iff.mpr (by decide)
    · intro u hu
      refine ⟨fun hgen => ?_, trivial⟩
      cases hgen

end ToolLoop

end TruellmEngine.Server

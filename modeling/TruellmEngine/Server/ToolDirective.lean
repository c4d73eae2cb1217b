/-
  The directive that a forced tool choice adds to the system message, and how it is taken out
  again behind a round of calls: `requiredSuffix` by its exact text, `forcedSuffix` not at all.

  `lifted_iff`: along every run of the loop, each prompt behind a round has the system message
  without the directive exactly where the choice names no tool (or the prompt overflowed, and
  has no schemas), and the rest of the message has neither wording in itself.
-/
import Mathlib.Logic.Function.Iterate
import TruellmEngine.Lib.Occurrences
import TruellmEngine.Server.PromptBudget
import TruellmEngine.Server.PromptTexts

namespace TruellmEngine.Server

open Lib Bridge
open Lib.Json (value valueAt getString getJson)

/-! ## The system message -/

/-- The content of a system message. -/
def systemText (m : Json) : Option String :=
  if valueAt getString m "role" "" = "system" then some (valueAt getString m "content" "")
  else none

/-- The content of the first system message. -/
def systemContent (messages : Json) : Option String := messages.items.findSome? systemText

/-- The text without its first `requiredSuffix`. -/
def stripText (t : String) : String :=
  match cut requiredSuffix.toList t.toList with
  | some (front, back) => String.ofList (front ++ back)
  | none => t

theorem systemText_of_role {m : Json} {role : String}
    (h : value getString m "role" "" = .ok role) (hne : role ≠ "system") :
    systemText m = none := by
  unfold systemText
  rw [Json.valueAt_of_value h, if_neg hne]

theorem systemText_system {m : Json} {content : String}
    (hrole : value getString m "role" "" = .ok "system")
    (hcontent : value getString m "content" "" = .ok content) :
    systemText m = some content := by
  unfold systemText
  rw [Json.valueAt_of_value hrole, if_pos rfl, Json.valueAt_of_value hcontent]

theorem value_setContent_role (m v : Json) :
    value getString (m.setField "content" v) "role" "" = value getString m "role" "" :=
  Json.value_setField_ne (by decide) m v

theorem systemText_ignoresResults : IgnoresResults systemText := by
  intro m v htool
  rw [systemText_of_role htool (by decide),
    systemText_of_role ((value_setContent_role m v).trans htool) (by decide)]

theorem systemText_setContent {m : Json} (hrole : value getString m "role" "" = .ok "system")
    (content : String) : systemText (m.setField "content" (.string content)) = some content :=
  systemText_system ((value_setContent_role m _).trans hrole)
    (Json.valueString_setField_self (Json.isObject_of_value hrole) _ _ _)

theorem systemContent_array_of_map {ms ms' : List Json}
    (h : ms'.map systemText = ms.map systemText) :
    systemContent (.array ms') = systemContent (.array ms) := by
  have hfirst : ∀ xs : List Json,
      systemContent (.array xs) = (xs.map systemText).findSome? id := by
    intro xs
    rw [List.findSome?_map]
    rfl
  rw [hfirst, hfirst, h]

theorem stripRequired_content {ms ms' : List Json} (h : stripRequired ms = .ok ms') :
    systemContent (.array ms') = (systemContent (.array ms)).map stripText := by
  unfold systemContent
  show ms'.findSome? systemText = (ms.findSome? systemText).map stripText
  induction ms generalizing ms' with
  | nil =>
    cases h
    rfl
  | cons m ms ih =>
    obtain ⟨role, hrole, h⟩ := bind_eq_ok.mp h
    split at h
    · rename_i hsystem
      rw [hsystem] at hrole
      obtain ⟨content, hcontent, h⟩ := bind_eq_ok.mp h
      rw [List.findSome?_cons, systemText_system hrole hcontent]
      unfold stripText
      split at h
      · rename_i front back hcut
        cases h
        rw [List.findSome?_cons, systemText_setContent hrole, Option.map_some, hcut]
      · rename_i hcut
        cases h
        rw [List.findSome?_cons, systemText_system hrole hcontent, Option.map_some, hcut]
    · rename_i hother
      obtain ⟨rest, hrest, h⟩ := bind_eq_ok.mp h
      cases h
      rw [List.findSome?_cons, List.findSome?_cons, systemText_of_role hrole hother]
      exact ih hrest

theorem ResultsOf.systemText {toolRound : Nat} {toolCalls results : List Json}
    (h : ResultsOf toolRound toolCalls results) : results.findSome? systemText = none := by
  induction h with
  | nil => rfl
  | cons hm _ ih =>
    obtain ⟨body, rfl⟩ := hm
    exact ih

/-- A round takes one `requiredSuffix` out of the system message. -/
theorem toolRoundMessages_content (text : JsonText) (env : ChatEnv) (tools : ToolRegistry)
    (toolRound : Nat) (result : GenerateResult) (toolCalls : List Json) (messages : Json) :
    Gives (fun messages' => (∃ ms, messages' = .array ms) ∧
        systemContent messages' = (systemContent messages).map stripText)
      (toolRoundMessages text env tools toolRound result toolCalls messages) := by
  intro p messages' q h
  obtain ⟨ms, stripped, results, rfl, hstripped, hsame, hresults⟩ :=
    toolRoundMessages_strips text env systemText_ignoresResults _ _ _ _ _ _ _ _ h
  refine ⟨⟨ms, rfl⟩, ?_⟩
  rw [systemContent_array_of_map hsame, stripRequired_content hstripped]
  unfold systemContent
  show ((messages.items ++ callingTurn result toolCalls :: results).findSome? _).map _ = _
  have hround : (callingTurn result toolCalls :: results).findSome? systemText = none :=
    hresults.systemText
  rw [List.findSome?_append, hround, Option.or_none]

/-! ## The instruction -/

/-- What a choice `required` adds. -/
def directive (forcedTool : String) : String :=
  if forcedTool = "" then requiredSuffix else forcedSuffix forcedTool

/-- The instruction without a directive. -/
def plainInstr (env : ChatEnv) (schemas : List Json) : String := toolInstr env schemas "auto" ""

/-- An instruction, and the system text of the client behind it. -/
def instructedText (instr : String) (given : Option String) : String :=
  instr ++ given.elim "" fun t => "\n\n" ++ t

theorem toolInstr_required (env : ChatEnv) (schemas : List Json) (forcedTool : String) :
    toolInstr env schemas "required" forcedTool =
      plainInstr env schemas ++ directive forcedTool := by
  unfold plainInstr toolInstr directive
  have hauto : ¬ "auto" = "required" := by decide
  rw [if_pos rfl, if_neg hauto, String.append_empty]

theorem mergeSystem_content {instr : String} {ms : List Json} {r : Option (List Json)}
    (h : mergeSystem instr ms = .ok r) :
    r.map (fun merged => systemContent (.array merged)) =
        (systemContent (.array ms)).map (fun t => some (instr ++ "\n\n" ++ t)) ∧
      ∀ merged ∈ r, merged.length = ms.length := by
  unfold systemContent
  show r.map (fun merged => merged.findSome? systemText) =
    (ms.findSome? systemText).map (fun t => some (instr ++ "\n\n" ++ t)) ∧ _
  induction ms generalizing r with
  | nil =>
    cases h
    exact ⟨rfl, fun _ hmerged => by cases hmerged⟩
  | cons m ms ih =>
    obtain ⟨role, hrole, h⟩ := bind_eq_ok.mp h
    split at h
    · rename_i hsystem
      rw [hsystem] at hrole
      obtain ⟨content, hcontent, h⟩ := bind_eq_ok.mp h
      cases h
      rw [Option.map_some, List.findSome?_cons, systemText_setContent hrole, List.findSome?_cons,
        systemText_system hrole hcontent, Option.map_some]
      refine ⟨rfl, fun _ hmerged => ?_⟩
      cases hmerged
      rfl
    · rename_i hother
      obtain ⟨later, hlater, h⟩ := bind_eq_ok.mp h
      cases h
      obtain ⟨hcontent, hlength⟩ := ih hlater
      rw [List.findSome?_cons, systemText_of_role hrole hother, Option.map_map]
      constructor
      · rw [← hcontent]
        refine congrFun (congrArg Option.map (funext fun merged => ?_)) later
        show (m :: merged).findSome? systemText = _
        rw [List.findSome?_cons, systemText_of_role hrole hother]
      · intro merged hmerged
        obtain ⟨tail, htail, rfl⟩ := Option.map_eq_some_iff.mp hmerged
        rw [List.length_cons, List.length_cons, hlength tail htail]

theorem injectInto_content {instr : String} {messages injected : Json}
    (h : injectInto instr messages = .ok injected) :
    systemContent injected = some (instructedText instr (systemContent messages)) := by
  obtain ⟨r, hr, h⟩ := bind_eq_ok.mp h
  obtain ⟨hcontent, hlength⟩ := mergeSystem_content hr
  change r.map _ = (systemContent messages).map _ at hcontent
  cases r with
  | none =>
    cases h
    rw [Option.map_eq_none_iff.mp hcontent.symm]
    unfold instructedText
    rw [Option.elim_none, String.append_empty]
    rfl
  | some merged =>
    cases h
    obtain ⟨t, ht, hmerged⟩ := Option.map_eq_some_iff.mp hcontent.symm
    rw [ht]
    unfold instructedText
    rw [Option.elim_some, ← String.append_assoc, hmerged]
    have hitems : (messages.setItems merged).items = merged := by
      have hlength := hlength merged rfl
      cases messages with
      | null => exact (List.length_eq_zero_iff.mp hlength).symm
      | array ms => rfl
      | object fields =>
        refine List.map_snd_zip ?_
        rw [List.length_map]
        exact (hlength.trans (List.length_map _)).le
      | _ =>
        obtain ⟨role, hrole, -⟩ := bind_eq_ok.mp hr
        cases hrole
    show (messages.setItems merged).items.findSome? systemText = _
    rw [hitems]
    rfl

/-! ## What is taken out -/

/-- How the directive begins that names a tool. -/
def forcedStart : String := "\n\nIMPORTANT: You MUST call the tool \""

theorem partOf_iff {t s : String} : PartOf t s ↔ t.toList <:+: s.toList := by
  constructor
  · rintro ⟨pre, post, rfl⟩
    rw [String.toList_append, String.toList_append]
    exact ⟨pre.toList, post.toList, rfl⟩
  · rintro ⟨pre, post, h⟩
    refine ⟨String.ofList pre, String.ofList post, ?_⟩
    rw [← String.toList_inj, String.toList_append, String.toList_append, String.toList_ofList,
      String.toList_ofList, h]

theorem stripText_of_not_partOf {t : String} (h : ¬ PartOf requiredSuffix t) :
    stripText t = t := by
  unfold stripText
  split
  · rename_i front back hcut
    exact absurd (partOf_iff.mpr ⟨front, back, (cut_eq hcut).symm⟩) h
  · rfl

/-- Where the text has a `requiredSuffix`, one is taken out. -/
theorem stripText_of_partOf {t : String} (h : PartOf requiredSuffix t) :
    ∃ front back, t.toList = front ++ (requiredSuffix.toList ++ back) ∧
      (stripText t).toList = front ++ back := by
  unfold stripText
  split
  · rename_i front back hcut
    refine ⟨front, back, ?_, String.toList_ofList⟩
    rw [cut_eq hcut, List.append_assoc]
  · rename_i hcut
    exact absurd (partOf_iff.mp h) (cut_eq_none hcut)

theorem requiredSuffix_unbordered : Unbordered requiredSuffix.toList := by
  rw [show requiredSuffix.toList = _ from
    String.toList_append.trans (congrArg₂ (· ++ ·) String.toList_ofList String.toList_ofList)]
  decide +kernel

theorem forcedStart_apart : Apart forcedStart.toList requiredSuffix.toList := by
  rw [show forcedStart.toList = _ from String.toList_ofList,
    show requiredSuffix.toList = _ from
      String.toList_append.trans (congrArg₂ (· ++ ·) String.toList_ofList String.toList_ofList)]
  decide +kernel

theorem requiredSuffix_ne_empty : requiredSuffix.toList ≠ [] := by
  rw [show requiredSuffix.toList = _ from
    String.toList_append.trans (congrArg₂ (· ++ ·) String.toList_ofList String.toList_ofList)]
  exact List.cons_ne_nil _ _

theorem forcedStart_ne_empty : forcedStart.toList ≠ [] := by
  rw [show forcedStart.toList = _ from String.toList_ofList]
  exact List.cons_ne_nil _ _

/-- The one that was put in is the one that is taken out. -/
theorem stripText_inserted {front : String} (h : ¬ PartOf requiredSuffix front) (back : String) :
    stripText (front ++ requiredSuffix ++ back) = front ++ back := by
  unfold stripText
  rw [String.toList_append, String.toList_append, List.append_assoc,
    cut_of_first fun x y => requiredSuffix_unbordered.first fun hfront => h (partOf_iff.mpr hfront)]
  show String.ofList (front.toList ++ back.toList) = _
  rw [String.ofList_append, String.ofList_toList, String.ofList_toList]

theorem length_stripText_le (t : String) : (stripText t).toList.length ≤ t.toList.length := by
  by_cases h : PartOf requiredSuffix t
  · obtain ⟨front, back, ht, hstrip⟩ := stripText_of_partOf h
    rw [ht, hstrip, List.length_append, List.length_append, List.length_append]
    omega
  · rw [stripText_of_not_partOf h]

theorem length_stripText_lt {t : String} (h : PartOf requiredSuffix t) :
    (stripText t).toList.length < t.toList.length := by
  obtain ⟨front, back, ht, hstrip⟩ := stripText_of_partOf h
  have hpos := List.length_pos_iff.mpr requiredSuffix_ne_empty
  rw [ht, hstrip, List.length_append, List.length_append, List.length_append]
  omega

/-- What begins a directive with a name is left in. -/
theorem occurrences_stripText_le (t : String) :
    occurrences forcedStart.toList t.toList ≤
      occurrences forcedStart.toList (stripText t).toList := by
  by_cases h : PartOf requiredSuffix t
  · obtain ⟨front, back, ht, hstrip⟩ := stripText_of_partOf h
    rw [ht, hstrip]
    exact occurrences_takeOut_le forcedStart_apart front back
  · rw [stripText_of_not_partOf h]

/-- In no number of rounds a text loses what begins a directive with a name. -/
theorem occurrences_iterate_le (n : Nat) (t : String) :
    occurrences forcedStart.toList t.toList ≤
      occurrences forcedStart.toList (stripText^[n] t).toList := by
  induction n with
  | zero => exact Nat.le_refl _
  | succ n ih =>
    rw [Function.iterate_succ_apply']
    exact ih.trans (occurrences_stripText_le _)

/-- A text is left as it is by some rounds just if it has no `requiredSuffix`. -/
theorem iterate_stripText_eq_self_iff (n : Nat) (t : String) :
    stripText^[n + 1] t = t ↔ ¬ PartOf requiredSuffix t := by
  constructor
  · intro heq hpart
    have hle : ∀ n s, (stripText^[n] s).toList.length ≤ s.toList.length := by
      intro n s
      induction n with
      | zero => exact Nat.le_refl _
      | succ n ih =>
        rw [Function.iterate_succ_apply']
        exact (length_stripText_le _).trans ih
    have hlt := Nat.lt_of_le_of_lt (hle n (stripText t)) (length_stripText_lt hpart)
    rw [← Function.iterate_succ_apply, heq] at hlt
    exact Nat.lt_irrefl _ hlt
  · exact fun h => Function.iterate_fixed (stripText_of_not_partOf h) (n + 1)

theorem forcedSuffix_starts (forcedTool : String) :
    ∃ more, forcedSuffix forcedTool = forcedStart ++ more :=
  ⟨_, String.append_assoc.trans String.append_assoc⟩

theorem forcedStart_no_break : ∀ y ∈ forcedStart.toList.tails, y ≠ [] → y ≠ forcedStart.toList →
    ¬ "\n\n".toList <+: y ∧ ¬ y <+: "\n\n".toList := by
  rw [show forcedStart.toList = _ from String.toList_ofList]
  decide +kernel

/-- None begins in an instruction and ends in what stands behind it. -/
theorem occurrences_instructedText (instr : String) (given : Option String) :
    occurrences forcedStart.toList (instructedText instr given).toList =
      occurrences forcedStart.toList instr.toList +
        occurrences forcedStart.toList (given.elim "" fun t => "\n\n" ++ t).toList := by
  unfold instructedText
  rw [String.toList_append]
  refine occurrences_append ?_ _
  intro x y hxy hx hy hprefix
  cases given with
  | none => exact hy (List.prefix_nil.mp hprefix)
  | some t =>
    rw [Option.elim_some, String.toList_append] at hprefix
    have hproper : y ≠ forcedStart.toList := by
      intro hsame
      rw [hsame] at hxy
      exact hx (List.self_eq_append_left.mp hxy)
    obtain ⟨hbreak, hshort⟩ :=
      forcedStart_no_break y ((List.mem_tails _ _).mpr ⟨x, hxy.symm⟩) hy hproper
    rcases List.prefix_or_prefix_of_prefix hprefix (List.prefix_append _ t.toList) with h | h
    · exact hshort h
    · exact hbreak h

/-- A directive with a name counts. -/
theorem occurrences_forced_lt (instr forcedTool : String) (given : Option String) :
    occurrences forcedStart.toList (instructedText instr given).toList <
      occurrences forcedStart.toList
        (instructedText (instr ++ forcedSuffix forcedTool) given).toList := by
  obtain ⟨more, hmore⟩ := forcedSuffix_starts forcedTool
  have hone : 0 < occurrences forcedStart.toList (forcedSuffix forcedTool).toList := by
    rw [hmore, String.toList_append]
    exact occurrences_pos forcedStart_ne_empty (List.prefix_append _ _)
  have hboth : occurrences forcedStart.toList _ + occurrences forcedStart.toList _ ≤ _ :=
    occurrences_append_le instr.toList (forcedSuffix forcedTool).toList
  rw [occurrences_instructedText, occurrences_instructedText, String.toList_append]
  omega

/-- What is left of a system text with a directive is the text without, and has none in itself,
    just if the directive names no tool, and the text has it not in itself. -/
theorem iterate_stripText_directive_iff (n : Nat) (instr forcedTool : String)
    (given : Option String) :
    stripText^[n + 1] (instructedText (instr ++ directive forcedTool) given) =
          instructedText instr given ∧
        ¬ PartOf (directive forcedTool) (instructedText instr given) ↔
      forcedTool = "" ∧ ¬ PartOf requiredSuffix (instructedText instr given) := by
  unfold directive
  split
  · rename_i hunnamed
    refine ⟨fun h => ⟨hunnamed, h.2⟩, fun h => ⟨?_, h.2⟩⟩
    have hinstr : ¬ PartOf requiredSuffix instr :=
      fun hpart => h.2 (hpart.trans ⟨"", _, by rw [String.empty_append]; rfl⟩)
    rw [Function.iterate_succ_apply]
    unfold instructedText at h ⊢
    rw [stripText_inserted hinstr]
    exact Function.iterate_fixed (stripText_of_not_partOf h.2) n
  · rename_i hnamed
    refine iff_of_false (fun h => ?_) fun h => hnamed h.1
    have hle := occurrences_iterate_le (n + 1)
      (instructedText (instr ++ forcedSuffix forcedTool) given)
    rw [h.1] at hle
    exact absurd (occurrences_forced_lt instr forcedTool given) (Nat.not_lt_of_le hle)

/-- The prompt with the schemas overflows the context, and is made without them. -/
def reverts (env : ChatEnv) (bridge : Option PluginBridge) (req : ChatRequest)
    (tokens : List Token) : Bool :=
  !clientRequestedTools req && hasGenerators bridge && 0 < env.contextSize.toInt &&
    env.contextSize.toInt - max req.maxTokens.toInt 0 < tokens.length

theorem revertOverflow_messages {text : JsonText} {env : ChatEnv} {bridge : Option PluginBridge}
    {req : ChatRequest} {messages injected start : Json} {greq greq' greq'' : GenerateRequest}
    {p q : Progress}
    (h : revertOverflow text env bridge req messages (some (injected, greq')) greq p =
      (.ok (start, greq''), q)) :
    start = if reverts env bridge req greq'.tokens then messages else injected := by
  unfold revertOverflow at h
  dsimp only [Option.getD_some] at h
  unfold reverts
  split at h
  · rename_i hover
    rw [if_pos hover]
    obtain ⟨_, q₁, -, h⟩ := bind_ok h
    rw [if_pos Option.isSome_some] at h
    obtain ⟨prompt, q₂, -, h⟩ := bind_ok h
    obtain ⟨tokens, q₃, -, h⟩ := bind_ok h
    cases h
    rfl
  · rename_i hfits
    rw [if_neg hfits]
    cases h
    rfl

/-! ## What the loop shows -/

/-- The system text without a directive, with the instruction if it is kept. -/
def plainText (env : ChatEnv) (schemas : List Json) (reverted : Bool) (given : Option String) :
    Option String :=
  if reverted then given else some (instructedText (plainInstr env schemas) given)

/-- The choice names no tool, or the schemas are out again, and the text has neither wording. -/
structure Liftable (forcedTool : String) (reverted : Bool) (plain : Option String) : Prop where
  unnamed : forcedTool = "" ∨ reverted = true
  required : ∀ t ∈ plain, ¬ PartOf requiredSuffix t
  directive : ∀ t ∈ plain, ¬ PartOf (directive forcedTool) t

theorem map_iterate_iff (env : ChatEnv) (schemas : List Json) (forcedTool : String)
    (reverted : Bool) (given : Option String) (n : Nat) :
    (if reverted then given else
          some (instructedText (toolInstr env schemas "required" forcedTool) given)).map
          stripText^[n + 1] = plainText env schemas reverted given ∧
        (∀ t ∈ plainText env schemas reverted given, ¬ PartOf (directive forcedTool) t) ↔
      Liftable forcedTool reverted (plainText env schemas reverted given) := by
  unfold plainText
  cases reverted with
  | false =>
    rw [toolInstr_required, if_neg Bool.false_ne_true, if_neg Bool.false_ne_true,
      Option.map_some]
    simp only [Option.some.injEq, Option.mem_some_iff, forall_eq']
    rw [iterate_stripText_directive_iff]
    constructor
    · rintro ⟨rfl, hrequired⟩
      refine ⟨.inl rfl, fun t ht => ?_, fun t ht => ?_⟩
      · cases ht
        exact hrequired
      · cases ht
        exact hrequired
    · intro h
      exact ⟨h.unnamed.resolve_right Bool.false_ne_true, h.required _ rfl⟩
  | true =>
    rw [if_pos rfl, if_pos rfl]
    have hkept : given.map stripText^[n + 1] = given ↔ ∀ t ∈ given, ¬ PartOf requiredSuffix t := by
      cases given with
      | none => exact iff_of_true rfl fun t ht => by cases ht
      | some t =>
        rw [Option.map_some, Option.some_inj, iterate_stripText_eq_self_iff]
        simp only [Option.mem_some_iff, forall_eq']
    rw [hkept]
    exact ⟨fun h => ⟨.inr rfl, h.1, h.2⟩, fun h => ⟨h.required, h.directive⟩⟩

namespace ToolLoop

/-- The prompt of the request is that of the conversation, as it is or with its last result left
    out, and this is its system text. -/
def ShowsSystem (text : JsonText) (env : ChatEnv) (messages : Json) (greq : GenerateRequest)
    (content : Option String) : Prop :=
  ∃ shown, (shown = messages ∨ ∃ shorter, omitLast messages.items.reverse = .ok shorter ∧
      shown = messages.setItems shorter.reverse) ∧
    PromptOf text env shown greq.tokens ∧ systemContent shown = content

/-- The prompt has the system text as it is without the directive, and the directive nowhere. -/
structure Lifted (text : JsonText) (env : ChatEnv) (forcedTool : String) (plain : Option String)
    (messages : Json) (greq : GenerateRequest) : Prop where
  shows : ShowsSystem text env messages greq plain
  absent : ∀ t ∈ plain, ¬ PartOf (directive forcedTool) t

/-- Each round has taken a `requiredSuffix` out, if there was one. -/
structure Stripped (text : JsonText) (env : ChatEnv) (first : Option String) (s : ToolLoop) :
    Prop where
  content : systemContent s.messages = first.map stripText^[s.toolRound]
  asks : s.phase = .generating → s.toolRound ≠ 0 →
    (∃ ms, s.messages = .array ms) ∧ PromptOf text env s.messages s.greq.tokens

section

variable {text : JsonText} {env : ChatEnv} {bridge : Option PluginBridge} {req : ChatRequest}
  {first : Option String} {s t : ToolLoop}

/-- Behind the round of a state. -/
theorem Stripped.behind (h : Stripped text env first s) {tools : ToolRegistry}
    {toolCalls : List Json} {messages : Json} {p q : Progress}
    (hmessages : toolRoundMessages text env tools s.toolRound s.result toolCalls s.messages p =
      (.ok messages, q)) :
    (∃ ms, messages = .array ms) ∧
      systemContent messages = first.map stripText^[s.toolRound + 1] := by
  obtain ⟨harray, hcontent⟩ := toolRoundMessages_content text env _ _ _ _ _ _ _ _ hmessages
  refine ⟨harray, ?_⟩
  rw [hcontent, h.content, Option.map_map, Function.iterate_succ']

theorem Stripped.step (h : Stripped text env first s)
    (hstep : s.step text env bridge req () = some t) : Stripped text env first t := by
  cases step_cases hstep with
  | goesOn hphase hdispatch =>
    obtain ⟨⟨q, hbehind⟩, hprompt, -⟩ := dispatchRound_inr hdispatch
    obtain ⟨harray, hcontent⟩ := h.behind hbehind
    exact ⟨hcontent, fun _ _ => ⟨harray, hprompt⟩⟩
  | _ => exact ⟨h.content, fun hgen => by cases hgen⟩

/-- With a result left out, the system message is the same. -/
theorem systemContent_omitLast {ms shorter : List Json}
    (h : omitLast ms.reverse = .ok shorter) :
    systemContent (.array shorter.reverse) = systemContent (.array ms) := by
  apply systemContent_array_of_map
  rw [List.map_reverse, omitLast_map systemText_ignoresResults h, List.map_reverse,
    List.reverse_reverse]

/-- A prompt that is asked for behind a round shows what the rounds have left. -/
theorem Asks.shows_iff (h : Stripped text env first s)
    (hstep : s.step text env bridge req () = some t) {messages : Json} {greq : GenerateRequest}
    (hasks : Asks text env s t messages greq) :
    ∃ n, ∀ content, ShowsSystem text env messages greq content ↔
      first.map stripText^[n + 1] = content := by
  suffices hshown : ∃ n ms, messages = .array ms ∧
      systemContent messages = first.map stripText^[n + 1] ∧
      ∃ shown, (shown = messages ∨ ∃ shorter, omitLast messages.items.reverse = .ok shorter ∧
        shown = messages.setItems shorter.reverse) ∧ PromptOf text env shown greq.tokens by
    obtain ⟨n, ms, rfl, hcontent, shown, hshown, hprompt⟩ := hshown
    have hsame : ∀ shown : Json, (shown = .array ms ∨ ∃ shorter,
        omitLast (Json.array ms).items.reverse = .ok shorter ∧
          shown = (Json.array ms).setItems shorter.reverse) →
        systemContent shown = first.map stripText^[n + 1] := by
      rintro _ (rfl | ⟨shorter, hshorter, rfl⟩)
      · exact hcontent
      · exact (systemContent_omitLast hshorter).trans hcontent
    refine ⟨n, fun content => ⟨?_, ?_⟩⟩
    · rintro ⟨shown', hshown', -, rfl⟩
      exact (hsame shown' hshown').symm
    · rintro rfl
      exact ⟨shown, hshown, hprompt, hsame shown hshown⟩
  cases hasks with
  | again hphase hround hlater =>
    obtain ⟨⟨ms, hms⟩, hprompt⟩ := h.asks hphase hlater
    obtain ⟨n, hn⟩ := Nat.exists_eq_succ_of_ne_zero hlater
    refine ⟨n, ms, hms, ?_, _, .inl rfl, hprompt⟩
    rw [h.content, hn]
  | lastPass hphase hmessages hended huses =>
    obtain ⟨⟨ms, hms⟩, hcontent⟩ := h.behind hmessages
    obtain ⟨shorter, hshorter, hprompt⟩ :=
      (lastPass_of_step hstep hphase hmessages hended huses).omitted
    exact ⟨s.toolRound, ms, hms, hcontent, _, .inr ⟨shorter, hshorter, rfl⟩, hprompt⟩

/-- What the system message is when the loop starts. -/
theorem systemContent_start {forcedTool : String} {schemas : List Json}
    {messages injected start : Json} {greq greq' greq'' : GenerateRequest} {p q q' : Progress}
    (hchoice : toolChoiceOf req.toolChoice = .ok ("required", forcedTool))
    (hschemas : allSchemas text bridge req = .ok schemas)
    (hinjected : injectSchemas text env bridge req messages greq p =
      (.ok (some (injected, greq')), q))
    (hstart : revertOverflow text env bridge req messages (some (injected, greq')) greq q =
      (.ok (start, greq''), q')) :
    systemContent start = if reverts env bridge req greq'.tokens then systemContent messages else
      some (instructedText (toolInstr env schemas "required" forcedTool)
        (systemContent messages)) := by
  rw [revertOverflow_messages hstart]
  split
  · rfl
  · obtain ⟨choice, q₁, hchoice', h⟩ := bind_ok hinjected
    obtain ⟨schemas', q₂, hschemas', h⟩ := bind_ok h
    cases hchoice.symm.trans (typed_ok hchoice')
    cases hschemas.symm.trans (typed_ok hschemas')
    split at h
    · cases h
    · obtain ⟨injected', q₃, hinjected', h⟩ := bind_ok h
      obtain ⟨prompt, q₄, -, h⟩ := bind_ok h
      obtain ⟨tokens, q₅, -, h⟩ := bind_ok h
      cases h
      exact injectInto_content (typed_ok hinjected')

theorem lifted_iff_of_stripped {schemas : List Json} {forcedTool : String} {reverted : Bool}
    {given : Option String}
    (h : Stripped text env (if reverted then given else
      some (instructedText (toolInstr env schemas "required" forcedTool) given)) s)
    (hstep : s.step text env bridge req () = some t) {messages : Json} {greq : GenerateRequest}
    (hasks : Asks text env s t messages greq) :
    Lifted text env forcedTool (plainText env schemas reverted given) messages greq ↔
      Liftable forcedTool reverted (plainText env schemas reverted given) := by
  obtain ⟨n, hshows⟩ := hasks.shows_iff h hstep
  rw [← map_iterate_iff env schemas forcedTool reverted given n, ← hshows]
  exact ⟨fun hlifted => ⟨hlifted.shows, hlifted.absent⟩, fun hlifted => ⟨hlifted.1, hlifted.2⟩⟩

end

/-- From the messages that the handler starts the loop with, each prompt behind a round has the
    system text without the directive exactly where the request is as `Liftable` says. -/
theorem lifted_iff (text : JsonText) (env : ChatEnv) (bridge : Option PluginBridge)
    (req : ChatRequest) {forcedTool : String} {schemas : List Json}
    {messages injected start : Json} {greq greq' greq'' : GenerateRequest} {p q q' : Progress}
    (hchoice : toolChoiceOf req.toolChoice = .ok ("required", forcedTool))
    (hschemas : allSchemas text bridge req = .ok schemas)
    (hinjected : injectSchemas text env bridge req messages greq p =
      (.ok (some (injected, greq')), q))
    (hstart : revertOverflow text env bridge req messages (some (injected, greq')) greq q =
      (.ok (start, greq''), q'))
    (progress : Progress) (n : Nat) :
    AllSteps (step text env bridge req)
      (fun s _ => ∀ t behind greq, s.step text env bridge req () = some t →
        Asks text env s t behind greq →
          (Lifted text env forcedTool
              (plainText env schemas (reverts env bridge req greq'.tokens)
                (systemContent messages)) behind greq ↔
            Liftable forcedTool (reverts env bridge req greq'.tokens)
              (plainText env schemas (reverts env bridge req greq'.tokens)
                (systemContent messages))))
      { progress := progress, messages := start, greq := greq'' } (List.replicate n ()) := by
  refine allSteps_of_invariant (I := Stripped text env _)
    (fun s _ t h _ hstep => h.step hstep)
    (fun s _ _ h _ _ t behind greq hstep hasks => lifted_iff_of_stripped h hstep hasks)
    ⟨?_, fun _ hlater => absurd rfl hlater⟩
    (allSteps_of_labels (C := fun _ => True) fun _ _ => trivial)
  rw [systemContent_start hchoice hschemas hinjected hstart]
  exact Option.map_id'.symm

/-- What the model says is a bare call, and the schemas are those of `clockBridge`. -/
def directedText : JsonText where
  parse raw :=
    if raw = bytes "[\x7b\x7d]" then some (.array [.object []]) else clockText.parse raw
  dump _ := ""

def directedRequest (toolChoice : Json) : ChatRequest where
  messages := .array []
  toolChoice := some toolChoice

/-- The choice of the function `clock`. -/
def clockChoice : Json :=
  .object [("function", .object [("name", .string "clock")]), ("type", .string "function")]

/-- The loop with the instruction and a directive. -/
def directedStart (forcedTool : String) : ToolLoop where
  progress := { ctx := none }
  messages := .array [roleMessage "system" (toolInstr clockEnv [.object []] "required" forcedTool)]
  greq := { tokens := [] }

theorem injectSchemas_directed {toolChoice : Json} {forcedTool : String}
    (h : toolChoiceOf (some toolChoice) = .ok ("required", forcedTool)) :
    injectSchemas directedText clockEnv (some clockBridge) (directedRequest toolChoice) (.array [])
      { tokens := [] } { ctx := none } =
        (.ok (some ((directedStart forcedTool).messages, { tokens := [] })),
          { ctx := none, uses := [.tokenizes "chat"] }) := by
  have hschemas : allSchemas directedText (some clockBridge) (directedRequest toolChoice) =
      .ok [.object []] := rfl
  unfold injectSchemas
  rw [show (directedRequest toolChoice).toolChoice = some toolChoice from rfl, h, hschemas]
  rfl

theorem stripRequired_system (content : String) (ms : List Json) :
    stripRequired (roleMessage "system" content :: ms) =
      .ok (roleMessage "system" (stripText content) :: ms) := by
  refine bind_eq_ok.mpr ⟨"system", rfl, ?_⟩
  rw [if_pos rfl]
  refine bind_eq_ok.mpr ⟨content, rfl, ?_⟩
  unfold stripText
  cases cut requiredSuffix.toList content.toList with
  | some halves => rfl
  | none => rfl

def bareCall : Json :=
  .object [("function", .object [("arguments", .object []), ("name", .string "clock")]),
    ("id", .string "call_0"), ("type", .string "function")]

/-- A round behind an instruction goes on. -/
theorem dispatchRound_directed (content : String) (uses : List Use) : ∃ messages greq q,
    dispatchRound directedText clockEnv clockBridge.tools 0
      { text := bytes "\x7b\"name\":\"clock\"\x7d" } [bareCall]
      (.array [roleMessage "system" content]) { tokens := [] } { ctx := none, uses := uses } =
        (.ok (.inr (messages, greq)), q) := by
  let turn := callingTurn { text := bytes "\x7b\"name\":\"clock\"\x7d" } [bareCall]
  let p : Progress := { ctx := none, uses := uses }
  have hturn : Json.pushBack (.array [roleMessage "system" content]) turn =
    .ok (.array [roleMessage "system" content, turn]) := rfl
  have hcalls : [bareCall].foldlM (runToolCall directedText clockBridge.tools 0)
      (.array [roleMessage "system" content, turn]) p =
        (.ok (.array [roleMessage "system" content, turn, clockResult "noon"]), p) := rfl
  have hstripped : stripRequired
      (Json.array [roleMessage "system" content, turn, clockResult "noon"]).items =
        .ok [roleMessage "system" (stripText content), turn, clockResult "noon"] :=
    stripRequired_system content _
  unfold dispatchRound
  rw [bind_run, toolRoundMessages_run directedText clockEnv hturn hcalls hstripped]
  exact ⟨_, _, _, rfl⟩

/-- One call is dispatched, and the next prompt is asked for. -/
theorem run_directed (toolChoice : Json) (forcedTool : String) : ∃ t,
    run (step directedText clockEnv (some clockBridge) (directedRequest toolChoice))
      (directedStart forcedTool) (List.replicate 2 ()) = some t ∧
        t.phase = .generating ∧ t.toolRound = 1 := by
  have hround : (directedStart forcedTool).toolRound ≤ clockEnv.toolMaxRounds.toInt := by
    show ((0 : Nat) : Int) ≤ _
    decide
  have hdecide : decideRound directedText (some clockBridge) (directedRequest toolChoice)
      (clockEnv.generate (directedStart forcedTool).nextUses) =
        .ok (.inr ([bareCall], clockBridge.tools)) := rfl
  obtain ⟨messages, greq, q, hdispatch⟩ := dispatchRound_directed
    (toolInstr clockEnv [.object []] "required" forcedTool) (directedStart forcedTool).nextUses
  have hfirst := step_of_steps (.calls rfl hround hdecide)
  exact ⟨_, run_cons.mpr ⟨_, hfirst, run_cons.mpr ⟨_, step_of_steps (.goesOn rfl hdispatch), rfl⟩⟩,
    rfl, rfl⟩

theorem not_mem_ofList {c : Char} {cs : List Char} (h : c ∉ cs) :
    c ∉ (String.ofList cs).toList := by
  rwa [String.toList_ofList]

/-- The instruction has no `U`, as in `MUST`. -/
theorem plainInstr_directed :
    ¬ PartOf requiredSuffix (instructedText (plainInstr clockEnv [.object []]) none) := by
  intro h
  have hin : 'U' ∈ requiredSuffix.toList := by
    unfold requiredSuffix
    rw [String.toList_append]
    refine List.mem_append_left _ ?_
    rw [show String.toList _ = _ from String.toList_ofList]
    decide
  have hout : 'U' ∉ (instructedText (plainInstr clockEnv [.object []]) none).toList := by
    have hauto : ¬ "auto" = "required" := by decide
    unfold instructedText plainInstr toolInstr
    rw [if_neg hauto, Option.elim_none]
    simp only [String.toList_append, List.mem_append, not_or]
    and_intros <;> exact not_mem_ofList (by decide)
  exact hout ((partOf_iff.mp h).subset hin)

/-- The directive that names a function is in the prompt behind the round. -/
theorem forced_directive_stays :
    toolChoiceOf (some clockChoice) = .ok ("required", "clock") ∧
    ∃ p q injected greq, injectSchemas directedText clockEnv (some clockBridge)
        (directedRequest clockChoice) (.array []) { tokens := [] } p =
          (.ok (some (injected, greq)), q) ∧
      revertOverflow directedText clockEnv (some clockBridge) (directedRequest clockChoice)
        (.array []) (some (injected, greq)) { tokens := [] } q = (.ok (injected, greq), q) ∧
      ¬ AllSteps (step directedText clockEnv (some clockBridge) (directedRequest clockChoice))
        (fun s _ => ∀ t behind greq,
          s.step directedText clockEnv (some clockBridge) (directedRequest clockChoice) () =
            some t →
          Asks directedText clockEnv s t behind greq →
            Lifted directedText clockEnv "clock"
              (plainText clockEnv [.object []] false none) behind greq)
        { progress := { ctx := none }, messages := injected, greq := greq }
        (List.replicate 3 ()) := by
  refine ⟨rfl, { ctx := none }, _, _, _, injectSchemas_directed rfl, rfl, fun hall => ?_⟩
  obtain ⟨s, hrun, hphase, hround⟩ := run_directed clockChoice "clock"
  have hstripped : Stripped directedText clockEnv (some (instructedText
      (toolInstr clockEnv [.object []] "required" "clock") none)) s := by
    refine (allStates_of_kept (fun s _ t h hstep => Stripped.step h hstep) ?_ _).last hrun
    refine ⟨?_, fun _ hlater => absurd rfl hlater⟩
    unfold instructedText
    rw [Option.elim_none, String.append_empty]
    rfl
  cases hstep : step directedText clockEnv (some clockBridge) (directedRequest clockChoice) s ()
    with
  | none =>
    obtain ⟨outcome, hended⟩ := ended_of_step hstep
    cases hphase.symm.trans hended
  | some t =>
    have hasks : Asks directedText clockEnv s t s.messages s.greq := by
      refine .again hphase ?_ ?_
      · rw [hround]
        decide
      · rw [hround]
        decide
    rw [show List.replicate 3 () = List.replicate 2 () ++ [()] from rfl] at hall
    have hlifted := hall.last hrun hstep t _ _ hstep hasks
    have hiff : Lifted directedText clockEnv "clock"
        (plainText clockEnv [.object []] false none) s.messages s.greq ↔ Liftable "clock" false _ :=
      lifted_iff_of_stripped hstripped hstep hasks
    rcases (hiff.mp hlifted).unnamed with hunnamed | hreverted
    · exact absurd hunnamed (by decide)
    · cases hreverted

/-- The directive that names none is not. -/
theorem required_directive_lifted :
    AllSteps (step directedText clockEnv (some clockBridge) (directedRequest (.string "required")))
      (fun s _ => ∀ t behind greq,
        s.step directedText clockEnv (some clockBridge) (directedRequest (.string "required")) () =
          some t →
        Asks directedText clockEnv s t behind greq →
          Lifted directedText clockEnv "" (plainText clockEnv [.object []] false none) behind greq)
      (directedStart "") (List.replicate 3 ()) := by
  have hplain : ∀ t ∈ plainText clockEnv [.object []] false none, ¬ PartOf requiredSuffix t := by
    intro t ht
    cases ht
    exact plainInstr_directed
  have hliftable : Liftable "" false (plainText clockEnv [.object []] false none) :=
    ⟨.inl rfl, hplain, hplain⟩
  have hiff := lifted_iff directedText clockEnv (some clockBridge)
    (directedRequest (.string "required")) rfl rfl (injectSchemas_directed rfl) rfl { ctx := none }
    3
  refine (allSteps_congr (I := fun _ => True) (fun _ _ _ _ _ => trivial) ?_ trivial _).mp hiff
  intro s _ _
  refine forall_congr' fun t => forall_congr' fun behind => forall_congr' fun greq => ?_
  refine imp_congr_right fun hstep => imp_congr_right fun hasks => ?_
  exact iff_true_right hliftable

end ToolLoop

end TruellmEngine.Server

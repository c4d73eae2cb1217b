/-
  What becomes of the content of a request of the Anthropic interface: the text of a turn, its
  tool calls and its tool results, each in the order of its blocks.

  `translateMessages_conserves`: every turn of well-typed blocks becomes a message for each of
  its results and then at most one message of its own, with the text and, for the assistant,
  with the calls. There is none only behind results, for want of a text and of calls.
-/
import TruellmEngine.Server.ToolRoundTrip

namespace TruellmEngine.Server

open Lib
open Lib.Json (Field value valueAt getString isString)

/-! ## What a turn holds -/

def blockType (blk : Json) : String := valueAt getString blk "type" ""

/-- A text, or what stands for an image. -/
def piece (blk : Json) : Option String :=
  if blockType blk = "text" then some (valueAt getString blk "text" "")
  else if blockType blk = "image" then some "[image]"
  else none

/-- The pieces by lines, from the first that is not empty. -/
def joinLines (pieces : List String) : String := "\n".intercalate (pieces.dropWhile (· = ""))

/-- A content as plain text. -/
def flattened : Json → String
  | .string s => s
  | .array blks => joinLines (blks.filterMap piece)
  | _ => ""

/-- The call of a block of type `tool_use`. -/
def callOf (text : JsonText) (blk : Json) : Option ToolCall :=
  if blockType blk = "tool_use" then some {
    id := valueAt getString blk "id" ""
    name := valueAt getString blk "name" ""
    arguments := text.dump ((blk.field? "input").getD (.object [])) }
  else none

/-- A message of role `tool`. -/
structure ToolAnswer where
  toolCallId : String
  content : String

def ToolAnswer.json (a : ToolAnswer) : Json :=
  .object [("content", .string a.content), ("role", .string "tool"),
    ("tool_call_id", .string a.toolCallId)]

/-- The answer in a block of type `tool_result`. -/
def answerOf (blk : Json) : Option ToolAnswer :=
  if blockType blk = "tool_result" then some {
    toolCallId := valueAt getString blk "tool_use_id" ""
    content := flattened ((blk.field? "content").getD (.string "")) }
  else none

def turnRole (m : Json) : String := valueAt getString m "role" "user"

def turnContent (m : Json) : Json := (m.field? "content").getD (.string "")

/-- The blocks of a turn; a content that is a text has none. -/
def blocksOf (m : Json) : List Json :=
  match turnContent m with
  | .array blks => blks
  | _ => []

def answersOf (m : Json) : List ToolAnswer := (blocksOf m).filterMap answerOf

/-- The calls of a turn of the assistant; no other turn makes any. -/
def turnCalls (text : JsonText) (m : Json) : List ToolCall :=
  if turnRole m = "assistant" then (blocksOf m).filterMap (callOf text) else []

/-! ## Types -/

/-- A block as a flattened content needs it. -/
structure TypedText (blk : Json) : Prop where
  type : Field isString blk "type"
  text : blockType blk = "text" → Field isString blk "text"

structure TypedBlock (blk : Json) : Prop extends TypedText blk where
  use : blockType blk = "tool_use" → Field isString blk "id" ∧ Field isString blk "name"
  result : blockType blk = "tool_result" → Field isString blk "tool_use_id" ∧
    ∀ blks, blk.field? "content" = some (.array blks) → ∀ b ∈ blks, TypedText b

/-- A message whose content is a text or blocks. -/
structure TypedMessage (m : Json) : Prop where
  role : Field isString m "role"
  content : (∃ s, turnContent m = .string s) ∨
    ∃ blks, turnContent m = .array blks ∧ ∀ blk ∈ blks, TypedBlock blk

/-! ## What it becomes -/

/-- The message of a turn itself. -/
structure OwnMessage (text : JsonText) (m msg : Json) : Prop where
  role : msg.field? "role" = some (.string (turnRole m))
  content : msg.field? "content" = some (.string (flattened (turnContent m)))
  toolCalls : msg.field? "tool_calls" =
    if turnCalls text m = [] then none else some (.array ((turnCalls text m).map ToolCall.json))

/-- A turn as its answers and its own message. -/
structure Conserved (text : JsonText) (m : Json) (answers own : List Json) : Prop where
  answered : answers = (answersOf m).map ToolAnswer.json
  message : ∀ msg ∈ own, OwnMessage text m msg
  single : own.length ≤ 1
  skipped : own = [] ↔
    answersOf m ≠ [] ∧ flattened (turnContent m) = "" ∧ turnCalls text m = []

/-! ## Text -/

theorem dropWhile_empty_head {pieces rest : List String} {p : String}
    (h : pieces.dropWhile (· = "") = p :: rest) : p ≠ "" := by
  have hhead := List.head_dropWhile_not (fun s => decide (s = "")) (by rw [h]; simp)
  simp only [h, List.head_cons, decide_eq_false_iff_not] at hhead
  exact hhead

theorem joinLines_eq_empty {pieces : List String} :
    joinLines pieces = "" ↔ pieces.dropWhile (· = "") = [] := by
  unfold joinLines
  constructor
  · intro h
    cases hdrop : pieces.dropWhile (· = "") with
    | nil => rfl
    | cons p rest =>
      rw [hdrop] at h
      have hp := dropWhile_empty_head hdrop
      cases rest with
      | nil =>
        rw [String.intercalate_singleton] at h
        exact absurd h hp
      | cons q rest =>
        rw [String.intercalate_cons_cons] at h
        simp at h
  · intro h
    rw [h, String.intercalate_nil]

theorem joinLines_concat (pieces : List String) (more : String) :
    joinLines (pieces ++ [more]) =
      (if joinLines pieces = "" then joinLines pieces else joinLines pieces ++ "\n") ++ more := by
  by_cases hempty : joinLines pieces = ""
  · rw [if_pos hempty, hempty, String.empty_append]
    have hdrop := joinLines_eq_empty.mp hempty
    unfold joinLines
    rw [List.dropWhile_append, hdrop, List.isEmpty_nil, if_pos rfl]
    by_cases hmore : more = ""
    · rw [hmore]
      rfl
    · rw [List.dropWhile_cons_of_neg (by simpa using hmore), String.intercalate_singleton]
  · rw [if_neg hempty]
    have hdrop := fun h => hempty (joinLines_eq_empty.mpr h)
    unfold joinLines
    rw [List.dropWhile_append, if_neg (by simpa using hdrop),
      String.intercalate_append_of_ne_nil hdrop (by simp), String.intercalate_singleton]

theorem addText_joinLines (t : TurnBlocks) (pieces : List String) (more : String) :
    ({ t with text := joinLines pieces } : TurnBlocks).addText more =
      { t with text := joinLines (pieces ++ [more]) } := by
  rw [joinLines_concat]
  rfl

/-! ## Blocks -/

theorem value_typed {j : Json} {key : String} (h : Field isString j key) (dflt : String) :
    value getString j key dflt = .ok (valueAt getString j key dflt) :=
  Json.value_eq ((Json.valueString_isOk j key dflt).mpr h)

theorem blocksText_typed {blks : List Json} (h : ∀ blk ∈ blks, TypedText blk) (t : TurnBlocks)
    (pieces : List String) :
    blocksText blks { t with text := joinLines pieces } =
      .ok { t with text := joinLines (pieces ++ blks.filterMap piece) } := by
  induction blks generalizing pieces with
  | nil =>
    rw [List.filterMap_nil, List.append_nil]
    rfl
  | cons blk blks ih =>
    obtain ⟨hblk, hblks⟩ := List.forall_mem_cons.mp h
    unfold blocksText
    rw [value_typed hblk.type]
    show (if blockType blk = "text" then _ else if blockType blk = "image" then _ else _) = _
    by_cases htext : blockType blk = "text"
    · have hpiece : piece blk = some (valueAt getString blk "text" "") := if_pos htext
      rw [if_pos htext, value_typed (hblk.text htext), List.filterMap_cons_some hpiece,
        List.append_cons, ← ih hblks, ← addText_joinLines]
      rfl
    · rw [if_neg htext]
      by_cases himage : blockType blk = "image"
      · have hpiece : piece blk = some "[image]" := (if_neg htext).trans (if_pos himage)
        rw [if_pos himage, List.filterMap_cons_some hpiece, List.append_cons, ← ih hblks,
          ← addText_joinLines]
      · have hpiece : piece blk = none := (if_neg htext).trans (if_neg himage)
        rw [if_neg himage, List.filterMap_cons_none hpiece]
        exact ih hblks pieces

theorem blocksToText_typed {content : Json}
    (h : ∀ blks, content = .array blks → ∀ b ∈ blks, TypedText b) :
    blocksToText content = .ok (flattened content) := by
  cases content with
  | array blks =>
    have htext := blocksText_typed (h blks rfl) {} []
    show (do return (← blocksText blks {}).text : Except TypeError String) = _
    rw [show ({} : TurnBlocks) = { ({} : TurnBlocks) with text := joinLines [] } from rfl, htext]
    rfl
  | _ => rfl

theorem toolResult_typed {blk : Json} (h : TypedBlock blk) (htype : blockType blk = "tool_result") :
    ∃ a, answerOf blk = some a ∧ toolResult blk = .ok a.json := by
  obtain ⟨hid, hcontent⟩ := h.result htype
  refine ⟨_, if_pos htype, ?_⟩
  unfold toolResult
  rw [value_typed hid, blocksToText_typed ?_]
  · rfl
  · intro blks hblks
    cases hfield : blk.field? "content" with
    | none =>
      rw [hfield] at hblks
      cases hblks
    | some content =>
      rw [hfield] at hblks
      exact hcontent blks (hfield.trans (congrArg some hblks))

section

variable {text : JsonText}

theorem toolUse_typed (hf : text.Faithful) {blk : Json} (hencodes : text.encodes blk = true)
    (h : TypedBlock blk) (htype : blockType blk = "tool_use") :
    ∃ c, callOf text blk = some c ∧ toolUse text blk = .ok c.json := by
  obtain ⟨hid, hname⟩ := h.use htype
  have hinput : text.encodes ((blk.field? "input").getD (.object [])) = true := by
    cases hfield : blk.field? "input" with
    | none => exact hf.encodes_object.mpr fun f hmem => absurd hmem List.not_mem_nil
    | some input => exact encodes_field hf hencodes hfield
  have hdumps : text.dumps ((blk.field? "input").getD (.object [])) = .ok _ := if_pos hinput
  refine ⟨_, if_pos htype, ?_⟩
  unfold toolUse
  dsimp only
  rw [value_typed hid, value_typed hname, hdumps]
  rfl

/-- The blocks of a turn, each to the others of its kind. -/
theorem turnBlocks_typed (hf : text.Faithful) {blks : List Json}
    (hencodes : ∀ blk ∈ blks, text.encodes blk = true) (h : ∀ blk ∈ blks, TypedBlock blk)
    (t : TurnBlocks) (pieces : List String) :
    turnBlocks text blks { t with text := joinLines pieces } = .ok {
      text := joinLines (pieces ++ blks.filterMap piece)
      toolCalls := t.toolCalls ++ (blks.filterMap (callOf text)).map ToolCall.json
      toolResults := t.toolResults ++ (blks.filterMap answerOf).map ToolAnswer.json } := by
  induction blks generalizing t pieces with
  | nil =>
    show _ = Except.ok (TurnBlocks.mk (joinLines (pieces ++ [])) (t.toolCalls ++ [])
      (t.toolResults ++ []))
    rw [List.append_nil, List.append_nil, List.append_nil]
    rfl
  | cons blk blks ih =>
    obtain ⟨hblk, hblks⟩ := List.forall_mem_cons.mp h
    obtain ⟨hencode, hencodes⟩ := List.forall_mem_cons.mp hencodes
    unfold turnBlocks
    rw [value_typed hblk.type]
    show (if blockType blk = "text" then _ else if blockType blk = "image" then _
      else if blockType blk = "tool_use" then _ else if blockType blk = "tool_result" then _
      else _) = _
    by_cases htext : blockType blk = "text"
    · have hpiece : piece blk = some (valueAt getString blk "text" "") := if_pos htext
      have huse : callOf text blk = none := if_neg (by rw [htext]; decide)
      have hresult : answerOf blk = none := if_neg (by rw [htext]; decide)
      rw [if_pos htext, value_typed (hblk.text htext), List.filterMap_cons_some hpiece,
        List.filterMap_cons_none huse, List.filterMap_cons_none hresult, List.append_cons,
        ← ih hencodes hblks, ← addText_joinLines]
      rfl
    rw [if_neg htext]
    by_cases himage : blockType blk = "image"
    · have hpiece : piece blk = some "[image]" := (if_neg htext).trans (if_pos himage)
      have huse : callOf text blk = none := if_neg (by rw [himage]; decide)
      have hresult : answerOf blk = none := if_neg (by rw [himage]; decide)
      rw [if_pos himage, List.filterMap_cons_some hpiece, List.filterMap_cons_none huse,
        List.filterMap_cons_none hresult, List.append_cons, ← ih hencodes hblks,
        ← addText_joinLines]
    have hpiece : piece blk = none := (if_neg htext).trans (if_neg himage)
    rw [if_neg himage, List.filterMap_cons_none hpiece]
    by_cases huse : blockType blk = "tool_use"
    · obtain ⟨c, hcall, htool⟩ := toolUse_typed hf hencode hblk huse
      have hresult : answerOf blk = none := if_neg (by rw [huse]; decide)
      rw [if_pos huse, htool, List.filterMap_cons_some hcall, List.filterMap_cons_none hresult,
        List.map_cons, List.append_cons]
      exact ih hencodes hblks { t with toolCalls := t.toolCalls ++ [c.json] } pieces
    have hcall : callOf text blk = none := if_neg huse
    rw [if_neg huse, List.filterMap_cons_none hcall]
    by_cases hresult : blockType blk = "tool_result"
    · obtain ⟨a, hanswer, htool⟩ := toolResult_typed hblk hresult
      rw [if_pos hresult, htool, List.filterMap_cons_some hanswer, List.map_cons,
        List.append_cons]
      exact ih hencodes hblks { t with toolResults := t.toolResults ++ [a.json] } pieces
    · have hanswer : answerOf blk = none := if_neg hresult
      rw [if_neg hresult, List.filterMap_cons_none hanswer]
      exact ih hencodes hblks t pieces

/-! ## Turns -/

theorem turnBlocks_turn (hf : text.Faithful) {m : Json} {blks : List Json}
    (hencodes : text.encodes m = true) (hcontent : turnContent m = .array blks)
    (h : ∀ blk ∈ blks, TypedBlock blk) :
    turnBlocks text blks {} = .ok {
      text := flattened (turnContent m)
      toolCalls := ((blocksOf m).filterMap (callOf text)).map ToolCall.json
      toolResults := (answersOf m).map ToolAnswer.json } := by
  have hblks : blocksOf m = blks := by
    unfold blocksOf
    rw [hcontent]
  have hencode : ∀ blk ∈ blks, text.encodes blk = true := by
    cases hfield : m.field? "content" with
    | none =>
      unfold turnContent at hcontent
      rw [hfield] at hcontent
      cases hcontent
    | some content =>
      unfold turnContent at hcontent
      rw [hfield] at hcontent
      exact hf.encodes_array.mp (encodes_field hf hencodes (hfield.trans (congrArg some hcontent)))
  unfold answersOf
  rw [hblks, hcontent]
  exact turnBlocks_typed hf hencode h {} []

theorem roleMessage_own {m : Json} (hcalls : turnCalls text m = []) :
    OwnMessage text m (roleMessage (turnRole m) (flattened (turnContent m))) where
  role := rfl
  content := rfl
  toolCalls := by
    rw [if_pos hcalls]
    rfl

/-- The message of a turn itself, if it has one. -/
def ownMessages (text : JsonText) (m : Json) : List Json :=
  if turnCalls text m ≠ [] then
    [.object [("content", .string (flattened (turnContent m))), ("role", .string "assistant"),
      ("tool_calls", .array ((turnCalls text m).map ToolCall.json))]]
  else if flattened (turnContent m) ≠ "" ∨ answersOf m = [] then
    [roleMessage (turnRole m) (flattened (turnContent m))]
  else []

theorem ownMessages_conserved (m : Json) :
    Conserved text m ((answersOf m).map ToolAnswer.json) (ownMessages text m) := by
  unfold ownMessages
  split
  · rename_i hcalls
    have hrole : turnRole m = "assistant" := by
      by_contra hrole
      exact hcalls (if_neg hrole)
    refine ⟨rfl, ?_, le_rfl, iff_of_false (List.cons_ne_nil _ _) fun h => hcalls h.2.2⟩
    intro msg hmsg
    rw [List.mem_singleton.mp hmsg]
    refine ⟨by rw [hrole]; rfl, rfl, ?_⟩
    rw [if_neg hcalls]
    rfl
  · rename_i hcalls
    rw [not_not] at hcalls
    split
    · rename_i hkept
      refine ⟨rfl, ?_, le_rfl, iff_of_false (List.cons_ne_nil _ _) ?_⟩
      · intro msg hmsg
        rw [List.mem_singleton.mp hmsg]
        exact roleMessage_own hcalls
      · intro hskipped
        exact hkept.elim (fun htext => htext hskipped.2.1) fun hnone => hskipped.1 hnone
    · rename_i hskipped
      rw [not_or, not_not] at hskipped
      refine ⟨rfl, fun msg hmsg => absurd hmsg List.not_mem_nil, Nat.zero_le 1, ?_⟩
      exact iff_of_true rfl ⟨hskipped.2, hskipped.1, hcalls⟩

theorem translateMessage_text {m : Json} {s : String} (h : Field isString m "role")
    (hcontent : turnContent m = .string s) :
    translateMessage text m = .ok ((answersOf m).map ToolAnswer.json ++ ownMessages text m) := by
  have hblocks : blocksOf m = [] := by
    unfold blocksOf
    rw [hcontent]
  have hcalls : turnCalls text m = [] := by
    unfold turnCalls
    rw [hblocks, List.filterMap_nil, ite_self]
  have hanswers : answersOf m = [] := by
    unfold answersOf
    rw [hblocks, List.filterMap_nil]
  unfold translateMessage ownMessages
  rw [value_typed h, hanswers, if_neg (not_not.mpr hcalls), if_pos (.inr rfl), hcontent]
  unfold turnContent at hcontent
  rw [hcontent]
  rfl

theorem translateMessage_blocks (hf : text.Faithful) {m : Json} {blks : List Json}
    (hencodes : text.encodes m = true) (h : Field isString m "role")
    (hcontent : turnContent m = .array blks) (hblks : ∀ blk ∈ blks, TypedBlock blk) :
    translateMessage text m = .ok ((answersOf m).map ToolAnswer.json ++ ownMessages text m) := by
  have hturn := turnBlocks_turn hf hencodes hcontent hblks
  have hcalls : turnRole m = "assistant" ∧
      ((blocksOf m).filterMap (callOf text)).map ToolCall.json ≠ [] ↔ turnCalls text m ≠ [] := by
    unfold turnCalls
    split
    · rename_i hrole
      simp [hrole]
    · rename_i hrole
      simp [hrole]
  have hrun : translateMessage text m =
      (if turnRole m = "assistant" ∧
          ((blocksOf m).filterMap (callOf text)).map ToolCall.json ≠ [] then
        .ok ((answersOf m).map ToolAnswer.json ++
          [.object [("content", .string (flattened (turnContent m))),
            ("role", .string "assistant"),
            ("tool_calls", .array (((blocksOf m).filterMap (callOf text)).map ToolCall.json))]])
      else if flattened (turnContent m) ≠ "" ∨ (answersOf m).map ToolAnswer.json = [] then
        .ok ((answersOf m).map ToolAnswer.json ++
          [roleMessage (turnRole m) (flattened (turnContent m))])
      else .ok ((answersOf m).map ToolAnswer.json)) := by
    have hcontent' : (m.field? "content").getD (.string "") = .array blks := hcontent
    unfold translateMessage
    rw [value_typed h, hcontent']
    show (turnBlocks text blks {} >>= _) = _
    rw [hturn]
    rfl
  rw [hrun]
  unfold ownMessages
  by_cases hnone : turnCalls text m = []
  · rw [if_neg (mt hcalls.mp (not_not.mpr hnone)), if_neg (not_not.mpr hnone)]
    by_cases hkept : flattened (turnContent m) ≠ "" ∨ answersOf m = []
    · rw [if_pos hkept, if_pos (hkept.imp_right List.map_eq_nil_iff.mpr)]
    · rw [if_neg hkept, if_neg (mt (Or.imp_right List.map_eq_nil_iff.mp) hkept),
        List.append_nil]
  · have hrole : turnRole m = "assistant" := (hcalls.mpr hnone).1
    rw [if_pos (hcalls.mpr hnone), if_pos hnone, turnCalls, if_pos hrole]

/-- One turn, and what was in it. -/
theorem translateMessage_conserves (hf : text.Faithful) {m : Json}
    (hencodes : text.encodes m = true) (h : TypedMessage m) :
    translateMessage text m = .ok ((answersOf m).map ToolAnswer.json ++ ownMessages text m) := by
  rcases h.content with ⟨s, hcontent⟩ | ⟨blks, hcontent, hblks⟩
  · exact translateMessage_text h.role hcontent
  · exact translateMessage_blocks hf hencodes h.role hcontent hblks

theorem translateMessages_conserves (hf : text.Faithful) {ms : List Json}
    (hencodes : text.encodes (.array ms) = true) (h : ∀ m ∈ ms, TypedMessage m) :
    ∃ turns : List (List Json × List Json),
      translateMessages text (.array ms) = .ok (turns.flatMap fun t => t.1 ++ t.2) ∧
      List.Forall₂ (fun m t => Conserved text m t.1 t.2) ms turns := by
  have hturns : ms.mapM (translateMessage text) =
      .ok (ms.map fun m => (answersOf m).map ToolAnswer.json ++ ownMessages text m) :=
    mapM_eq_ok fun m hm => translateMessage_conserves hf (hf.encodes_array.mp hencodes m hm)
      (h m hm)
  refine ⟨ms.map fun m => ((answersOf m).map ToolAnswer.json, ownMessages text m), ?_, ?_⟩
  · unfold translateMessages
    dsimp only
    rw [hturns, List.flatMap_map]
    rfl
  · rw [List.forall₂_map_right_iff, List.forall₂_same]
    intro m _
    exact ownMessages_conserved m

end

/-- A result, a text and a call in one turn of the assistant, and a result alone. -/
def mixedTurns : List Json :=
  [.object [("content", .array [
      .object [("text", .string "I look."), ("type", .string "text")],
      .object [("content", .string "noon"), ("tool_use_id", .string "1"),
        ("type", .string "tool_result")],
      .object [("id", .string "2"), ("input", .object []), ("name", .string "clock"),
        ("type", .string "tool_use")]]),
    ("role", .string "assistant")],
  .object [("content", .array [.object [("content", .array []), ("tool_use_id", .string "2"),
      ("type", .string "tool_result")]]),
    ("role", .string "user")]]

theorem field_of_lookup {fields : List (String × Json)} {key s : String}
    (h : fields.lookup key = some (.string s)) : Field isString (.object fields) key := by
  intro v hv
  rw [h] at hv
  cases hv
  rfl

theorem mixedTurns_typed : ∀ m ∈ mixedTurns, TypedMessage m := by
  intro m hm
  rcases List.mem_pair.mp hm with rfl | rfl
  · refine ⟨field_of_lookup rfl, .inr ⟨_, rfl, ?_⟩⟩
    refine List.forall_mem_cons.mpr ⟨?_, List.forall_mem_cons.mpr ⟨?_,
      List.forall_mem_cons.mpr ⟨?_, fun _ h => absurd h List.not_mem_nil⟩⟩⟩
    · exact ⟨⟨field_of_lookup rfl, fun _ => field_of_lookup rfl⟩,
        fun h => absurd h (by decide), fun h => absurd h (by decide)⟩
    · refine ⟨⟨field_of_lookup rfl, fun h => absurd h (by decide)⟩,
        fun h => absurd h (by decide), fun _ => ⟨field_of_lookup rfl, ?_⟩⟩
      intro blks hblks
      cases hblks
    · exact ⟨⟨field_of_lookup rfl, fun h => absurd h (by decide)⟩,
        fun _ => ⟨field_of_lookup rfl, field_of_lookup rfl⟩, fun h => absurd h (by decide)⟩
  · refine ⟨field_of_lookup rfl, .inr ⟨_, rfl, ?_⟩⟩
    refine List.forall_mem_cons.mpr ⟨?_, fun _ h => absurd h List.not_mem_nil⟩
    refine ⟨⟨field_of_lookup rfl, fun h => absurd h (by decide)⟩,
      fun h => absurd h (by decide), fun _ => ⟨field_of_lookup rfl, ?_⟩⟩
    intro blks hblks b hb
    cases hblks
    cases hb

theorem mixedTurns_conserved : ∃ turns : List (List Json × List Json),
    translateMessages CanonicalJson.canonical (.array mixedTurns) =
      .ok (turns.flatMap fun t => t.1 ++ t.2) ∧
    List.Forall₂ (fun m t => Conserved CanonicalJson.canonical m t.1 t.2) mixedTurns turns :=
  translateMessages_conserves CanonicalJson.canonical_faithful (by decide) mixedTurns_typed

end TruellmEngine.Server

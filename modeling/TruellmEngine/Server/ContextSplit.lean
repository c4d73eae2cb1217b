/-
  The parts of a text that is too large for the context: cut off, or split into chunks.

  `chunkContent_flatten`: the chunks together are the content. `chunkContent_isSome`: the
  splitting ends, unless the chunks are to have no characters. (`none` stands for the loop
  that never ends.) `chunkContent_within_iff`: no chunk is too long, unless a line break stands
  right behind the size of one.
-/
import Mathlib.Data.List.Basic

namespace TruellmEngine.Server

/-- The settings `context_split_*`. -/
structure SplitConfig where
  enabled : Bool := true
  strategy : String := "summarize"
  triggerFraction : Float32 := 0.5
  truncateFraction : Float32 := 0.60
  autoChunkFraction : Float32 := 0.55
  chunkTokens : Int32 := 0
  maxChunks : Int32 := 8
  summaryTokens : Int32 := 300

/-- A part of the budget. -/
def share (budget : Int64) (fraction : Float32) : Float32 := budget.toFloat32 * fraction

/-- The tokens of a chunk. -/
def SplitConfig.chunkToks (split : SplitConfig) (budget : Int64) : Int32 :=
  if 0 < split.chunkTokens then split.chunkTokens
  else (share budget split.autoChunkFraction).toInt32

/-- Characters for tokens, as `std::size_t`. -/
def charsOf (toks : Int32) : Nat := (toks.toInt64.toUInt64 * 3).toNat

/-- The last place of a character. -/
def lastIndex (c : Char) (s : List Char) : Option Nat :=
  (s.reverse.idxOf? c).map fun i => s.length - 1 - i

/-- A content that is too long, cut behind its last line that fits. -/
def truncate (keepChars : Nat) (content : List Char) : List Char :=
  if content.length > keepChars then
    let kept := content.take keepChars
    let trimmed :=
      match lastIndex '\n' kept with
      | some nl => kept.take (nl + 1)
      | none => kept
    trimmed ++ "\n[... content truncated to fit context window ...]".toList
  else content

/-- Where the next chunk ends: behind the last line break up to the size, unless that comes
    first. -/
def chunkEnd (targetChars : Nat) (content : List Char) : Nat :=
  match lastIndex '\n' (content.take (targetChars + 1)) with
  | some nl => if 0 < nl then nl + 1 else targetChars
  | none => targetChars

theorem length_drop_chunkEnd_lt {targetChars : Nat} {content : List Char} (hempty : content ≠ [])
    (hend : chunkEnd targetChars content ≠ 0) :
    (content.drop (chunkEnd targetChars content)).length < content.length := by
  have hpos := List.length_pos_iff.mpr hempty
  rw [List.length_drop]
  omega

def chunkContent (targetChars : Nat) (content : List Char) : Option (List (List Char)) :=
  if _hempty : content = [] then some []
  else if content.length ≤ targetChars then some [content]
  else if _hend : chunkEnd targetChars content = 0 then none
  else
    (chunkContent targetChars (content.drop (chunkEnd targetChars content))).map
      (content.take (chunkEnd targetChars content) :: ·)
termination_by content.length
decreasing_by exact length_drop_chunkEnd_lt _hempty _hend

theorem chunkContent_flatten {targetChars : Nat} {content : List Char}
    {chunks : List (List Char)} (h : chunkContent targetChars content = some chunks) :
    chunks.flatten = content := by
  fun_induction chunkContent targetChars content generalizing chunks with
  | case1 =>
    cases h
    rfl
  | case2 content hne hle =>
    cases h
    exact List.append_nil content
  | case3 => cases h
  | case4 content hne hlt hend ih =>
    obtain ⟨rest, hrest, rfl⟩ := Option.map_eq_some_iff.mp h
    rw [List.flatten_cons, ih hrest, List.take_append_drop]

theorem chunkEnd_pos {targetChars : Nat} (h : 0 < targetChars) (content : List Char) :
    0 < chunkEnd targetChars content := by
  unfold chunkEnd
  split
  · split
    · omega
    · exact h
  · exact h

theorem chunkContent_isSome {targetChars : Nat} (h : 0 < targetChars) (content : List Char) :
    (chunkContent targetChars content).isSome = true := by
  fun_induction chunkContent targetChars content with
  | case1 => rfl
  | case2 => rfl
  | case3 content hne hlt hend => exact absurd hend (Nat.ne_of_gt (chunkEnd_pos h content))
  | case4 content hne hlt hend ih => rwa [Option.isSome_map]

/-! ## Sizes -/

theorem lastIndex_concat (c d : Char) (s : List Char) :
    lastIndex c (s ++ [d]) = if d = c then some s.length else lastIndex c s := by
  unfold lastIndex
  rw [List.reverse_append, List.reverse_singleton, List.singleton_append, List.idxOf?_cons]
  by_cases hd : d = c
  · rw [if_pos (beq_iff_eq.mpr hd), if_pos hd, List.length_append]
    rfl
  · rw [if_neg (mt beq_iff_eq.mp hd), if_neg hd, Option.map_map]
    congr 1
    funext i
    show (s ++ [d]).length - 1 - (i + 1) = s.length - 1 - i
    rw [List.length_append, List.length_singleton]
    omega

theorem lastIndex_lt {c : Char} {s : List Char} {i : Nat} (h : lastIndex c s = some i) :
    i < s.length := by
  obtain ⟨j, hj, rfl⟩ := Option.map_eq_some_iff.mp h
  cases s with
  | nil => cases hj
  | cons d s =>
    rw [List.length_cons]
    omega

/-- A chunk is too long exactly if a line break stands right behind the size. -/
theorem chunkEnd_le_iff {targetChars : Nat} {content : List Char} (hpos : 0 < targetChars)
    (hlt : targetChars < content.length) :
    chunkEnd targetChars content ≤ targetChars ↔ content[targetChars]? ≠ some '\n' := by
  have hlength : (content.take targetChars).length = targetChars :=
    List.length_take_of_le (Nat.le_of_lt hlt)
  have hlast : lastIndex '\n' (content.take (targetChars + 1)) =
      if content[targetChars] = '\n' then some targetChars
      else lastIndex '\n' (content.take targetChars) := by
    rw [List.take_succ_eq_append_getElem hlt, lastIndex_concat, hlength]
  rw [List.getElem?_eq_getElem hlt, ne_eq, Option.some_inj]
  unfold chunkEnd
  rw [hlast]
  split_ifs with hbreak
  · dsimp only
    rw [if_pos hpos]
    exact iff_of_false (Nat.not_succ_le_self _) (not_not_intro hbreak)
  · refine iff_of_true ?_ hbreak
    split
    · rename_i nl hnl
      have hnl := lastIndex_lt hnl
      split_ifs <;> omega
    · exact Nat.le_refl _

theorem chunkEnd_le_length {targetChars : Nat} {content : List Char}
    (hlt : targetChars < content.length) : chunkEnd targetChars content ≤ content.length := by
  unfold chunkEnd
  split
  · rename_i nl hnl
    have hnl := lastIndex_lt hnl
    rw [List.length_take] at hnl
    split_ifs <;> omega
  · exact Nat.le_of_lt hlt

theorem chunkEnd_zero (content : List Char) : chunkEnd 0 content = 0 := by
  unfold chunkEnd
  split
  · rename_i nl hnl
    have hnl := lastIndex_lt hnl
    rw [List.length_take] at hnl
    rw [if_neg (by omega)]
  · rfl

/-- What is left of the content behind some of its chunks. -/
inductive LeftBehind (targetChars : Nat) : List Char → List Char → Prop where
  | all (content : List Char) : LeftBehind targetChars content content
  | chunk {content rest : List Char} (hlt : targetChars < content.length) :
    LeftBehind targetChars (content.drop (chunkEnd targetChars content)) rest →
      LeftBehind targetChars content rest

/-- The chunks have characters, and no line break stands right behind the size of one. -/
def CutsClear (targetChars : Nat) (content : List Char) : Prop :=
  (content ≠ [] → 0 < targetChars) ∧
    ∀ rest, LeftBehind targetChars content rest → rest[targetChars]? ≠ some '\n'

/-- The content is split, into parts that are not empty and not too long. -/
def SplitWithin (targetChars : Nat) (content : List Char) : Prop :=
  ∃ chunks, chunkContent targetChars content = some chunks ∧ chunks.flatten = content ∧
    ∀ chunk ∈ chunks, chunk ≠ [] ∧ chunk.length ≤ targetChars

/-- A content that fits is one chunk. -/
theorem cutsClear_of_fits {targetChars : Nat} {content : List Char}
    (hle : content.length ≤ targetChars) : CutsClear targetChars content := by
  constructor
  · intro hne
    exact Nat.lt_of_lt_of_le (List.length_pos_iff.mpr hne) hle
  · intro rest hleft
    cases hleft with
    | all =>
      rw [List.getElem?_eq_none hle]
      intro h
      cases h
    | chunk hlt => exact absurd hle (Nat.not_le_of_lt hlt)

/-- A content that does not fit is a first chunk, and the chunks of the rest. -/
theorem cutsClear_iff {targetChars : Nat} {content : List Char} (hpos : 0 < targetChars)
    (hlt : targetChars < content.length) : CutsClear targetChars content ↔
      content[targetChars]? ≠ some '\n' ∧
        CutsClear targetChars (content.drop (chunkEnd targetChars content)) := by
  constructor
  · rintro ⟨-, hbreaks⟩
    exact ⟨hbreaks content (.all content), fun _ => hpos, fun rest h => hbreaks rest (.chunk hlt h)⟩
  · rintro ⟨hfirst, -, hbreaks⟩
    refine ⟨fun _ => hpos, ?_⟩
    intro rest hleft
    cases hleft with
    | all => exact hfirst
    | chunk _ hleft => exact hbreaks rest hleft

/-- A content is split into chunks within the size exactly if its cuts are clear. -/
theorem chunkContent_within_iff (targetChars : Nat) (content : List Char) :
    SplitWithin targetChars content ↔ CutsClear targetChars content := by
  unfold SplitWithin
  fun_induction chunkContent targetChars content with
  | case1 =>
    refine iff_of_true ⟨[], rfl, rfl, fun _ h => absurd h List.not_mem_nil⟩ ?_
    exact cutsClear_of_fits (Nat.zero_le _)
  | case2 content hne hle =>
    refine iff_of_true ⟨[content], rfl, List.append_nil _, ?_⟩ (cutsClear_of_fits hle)
    intro chunk hchunk
    rw [List.mem_singleton.mp hchunk]
    exact ⟨hne, hle⟩
  | case3 content hne hlt hend =>
    refine iff_of_false ?_ ?_
    · rintro ⟨chunks, hchunks, -⟩
      cases hchunks
    · rintro ⟨hpos, -⟩
      exact absurd hend (Nat.ne_of_gt (chunkEnd_pos (hpos hne) content))
  | case4 content hne hle hend ih =>
    have hlt := Nat.lt_of_not_le hle
    have hpos : 0 < targetChars := by
      apply Nat.pos_of_ne_zero
      rintro rfl
      exact hend (chunkEnd_zero content)
    have hlength : (content.take (chunkEnd targetChars content)).length =
        chunkEnd targetChars content := List.length_take_of_le (chunkEnd_le_length hlt)
    rw [cutsClear_iff hpos hlt, ← ih, ← chunkEnd_le_iff hpos hlt]
    constructor
    · rintro ⟨chunks, hchunks, -, hall⟩
      obtain ⟨rest, hrest, rfl⟩ := Option.map_eq_some_iff.mp hchunks
      obtain ⟨hfirst, hmore⟩ := List.forall_mem_cons.mp hall
      exact ⟨hlength ▸ hfirst.2, rest, hrest, chunkContent_flatten hrest, hmore⟩
    · rintro ⟨hfirst, rest, hrest, hflat, hmore⟩
      refine ⟨_, congrArg (Option.map _) hrest, ?_, List.forall_mem_cons.mpr ⟨⟨?_, ?_⟩, hmore⟩⟩
      · rw [List.flatten_cons, hflat, List.take_append_drop]
      · rw [← List.length_pos_iff, hlength]
        exact Nat.pos_of_ne_zero hend
      · rw [hlength]
        exact hfirst

/-- A chunk of a token ends at three characters, and takes the line break behind them. -/
theorem break_behind_size : ¬ SplitWithin
    (charsOf (({ chunkTokens := 1 } : SplitConfig).chunkToks 1000)) "abc\nd".toList := by
  have hsize : charsOf (({ chunkTokens := 1 } : SplitConfig).chunkToks 1000) = 3 := by
    decide +kernel
  rw [hsize, chunkContent_within_iff]
  rintro ⟨-, hbreaks⟩
  exact hbreaks _ (.all _) rfl

end TruellmEngine.Server

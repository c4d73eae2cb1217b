/-
  Calls in prose: the document of a call, bare or between marks, with prose around it.

  `Embedding.recovered_iff`: it is found exactly if its braces match when those in its strings
  are counted too, or if the part that the marks enclose is read as it is: the end mark is not in
  the document, and what no mark divides from the document is blank. `brace_in_string` is a call
  that is not found.
-/
import TruellmEngine.Lib.CanonicalShape
import TruellmEngine.Server.CallBlocks

namespace TruellmEngine.Server

open Lib Lib.Place

/-! ## Braces that are counted -/

/-- Closed at the end, and not before, where `k` braces are open. -/
structure Closes (k : ℕ) (block : List UInt8) : Prop where
  whole : k + block.count 123 = block.count 125
  before : ∀ p, p <+: block → p ≠ block → p.count 125 < k + p.count 123

variable {k : ℕ} {c : UInt8} {s t block : List UInt8}

theorem forall_prefix_cons {P : List UInt8 → Prop} :
    (∀ p, p <+: c :: t → p ≠ c :: t → P p) ↔ P [] ∧ ∀ p, p <+: t → p ≠ t → P (c :: p) := by
  constructor
  · intro h
    refine ⟨h [] List.nil_prefix (List.cons_ne_nil _ _).symm, fun p hp hne => ?_⟩
    exact h (c :: p) (List.prefix_cons_inj c |>.mpr hp) fun heq => hne (List.cons.inj heq).2
  · rintro ⟨hnil, hcons⟩ p hp hne
    rcases List.prefix_cons_iff.mp hp with rfl | ⟨q, rfl, hq⟩
    · exact hnil
    · exact hcons q hq fun heq => hne (heq ▸ rfl)

/-- A character opens a brace, closes one, or does neither. -/
theorem closes_cons {k' : ℕ} (h : k + 1 + [c].count 123 = k' + [c].count 125) :
    Closes (k + 1) (c :: t) ↔ Closes k' t := by
  have hcount : ∀ (a : UInt8) (p : List UInt8), (c :: p).count a = [c].count a + p.count a :=
    fun a p => by rw [← List.singleton_append, List.count_append]
  constructor
  · intro hc
    constructor
    · have hwhole := hc.whole
      rw [hcount 123 t, hcount 125 t] at hwhole
      omega
    · intro p hp hne
      have hlt := (forall_prefix_cons.mp hc.before).2 p hp hne
      rw [hcount 123 p, hcount 125 p] at hlt
      omega
  · intro ht
    constructor
    · have hwhole := ht.whole
      rw [hcount 123 t, hcount 125 t]
      omega
    · refine forall_prefix_cons.mpr ⟨Nat.succ_pos _, fun p hp hne => ?_⟩
      have hlt := ht.before p hp hne
      rw [hcount 123 p, hcount 125 p]
      omega

theorem closes_zero : Closes 0 t ↔ t = [] := by
  constructor
  · intro h
    by_contra hne
    exact absurd (h.before [] List.nil_prefix fun heq => hne heq.symm) (Nat.lt_irrefl 0)
  · rintro rfl
    exact ⟨rfl, fun p hp hne => absurd (List.prefix_nil.mp hp) hne⟩

/-- The brace that closes is the first one at which as many are closed as are open. -/
theorem matching_eq_some :
    matching (k + 1) s = some block ↔ block <+: s ∧ Closes (k + 1) block := by
  induction s generalizing k block with
  | nil =>
    refine iff_of_false (Option.some_ne_none _).symm ?_
    rintro ⟨hnil, hcloses⟩
    rw [List.prefix_nil.mp hnil] at hcloses
    exact absurd hcloses.whole (Nat.succ_ne_zero _)
  | cons c s ih =>
    -- both sides speak of what is behind the first character
    have hbehind : ∀ {P Q : List UInt8 → Prop}, (∀ t, P t ↔ t <+: s ∧ Q t) →
        (∀ t, Closes (k + 1) (c :: t) ↔ Q t) →
        ((∃ t, P t ∧ c :: t = block) ↔ block <+: c :: s ∧ Closes (k + 1) block) := by
      intro P Q hP hQ
      constructor
      · rintro ⟨t, ht, rfl⟩
        exact ⟨List.prefix_cons_inj c |>.mpr ((hP t).mp ht).1, (hQ t).mpr ((hP t).mp ht).2⟩
      · rintro ⟨hstart, hcloses⟩
        rcases List.prefix_cons_iff.mp hstart with rfl | ⟨t, rfl, ht⟩
        · exact absurd hcloses.whole (Nat.succ_ne_zero _)
        · exact ⟨t, (hP t).mpr ⟨ht, (hQ t).mp hcloses⟩, rfl⟩
    unfold matching
    by_cases hopen : c = 123
    · rw [if_pos hopen, Option.map_eq_some_iff]
      exact hbehind (fun t => ih) fun t => closes_cons (by rw [hopen]; rfl)
    · rw [if_neg hopen]
      by_cases hclose : c = 125
      · rw [if_pos hclose]
        cases k with
        | zero =>
          rw [if_pos rfl, ← hbehind (P := (· = [])) (Q := (· = [])) (fun t => ?_) fun t => ?_]
          · simp
          · exact ⟨fun h => ⟨h ▸ List.nil_prefix, h⟩, And.right⟩
          · have hcount : 0 + 1 + [c].count 123 = 0 + [c].count 125 := by
              rw [hclose]
              rfl
            exact (closes_cons hcount).trans closes_zero
        | succ k =>
          rw [if_neg (by omega), Option.map_eq_some_iff]
          exact hbehind (fun t => ih) fun t => closes_cons (by rw [hclose]; rfl)
      · rw [if_neg hclose, Option.map_eq_some_iff]
        refine hbehind (fun t => ih) fun t => closes_cons ?_
        rw [List.count_singleton, List.count_singleton, beq_eq_false_iff_ne.mpr hopen,
          beq_eq_false_iff_ne.mpr hclose]

theorem closes_one : Closes 1 t ↔ Enclosed 123 125 (123 :: t) := by
  have hcount : ∀ p : List UInt8, (123 :: p).count 123 = 1 + p.count 123 ∧
      (123 :: p).count 125 = p.count 125 := by
    intro p
    rw [List.count_cons_self, List.count_cons_of_ne (by decide), Nat.add_comm]
    exact ⟨rfl, rfl⟩
  constructor
  · intro h
    refine ⟨by rw [(hcount t).1, (hcount t).2, h.whole], fun p hp hne hne' => ?_⟩
    rcases List.prefix_cons_iff.mp hp with rfl | ⟨q, rfl, hq⟩
    · exact absurd rfl hne
    · rw [(hcount q).1, (hcount q).2]
      exact h.before q hq fun heq => hne' (heq ▸ rfl)
  · intro h
    refine ⟨by rw [← (hcount t).1, ← (hcount t).2, h.whole], fun p hp hne => ?_⟩
    rw [← (hcount p).1, ← (hcount p).2]
    exact h.before (123 :: p) (List.prefix_cons_inj 123 |>.mpr hp) (List.cons_ne_nil _ _)
      fun heq => hne (List.cons.inj heq).2

/-- Braces are counted to the end of a block that they enclose, and only of such a block. -/
theorem matching_zero :
    matching 0 (123 :: s) = some (123 :: t) ↔ t <+: s ∧ Enclosed 123 125 (123 :: t) := by
  rw [← closes_one, ← matching_eq_some]
  show (matching 1 s).map (123 :: ·) = some (123 :: t) ↔ _
  rw [Option.map_eq_some_iff]
  constructor
  · rintro ⟨t', ht', heq⟩
    rw [ht', (List.cons.inj heq).2]
  · intro h
    exact ⟨t, h, rfl⟩

theorem braceBlocks_front {front : List UInt8} (h : 123 ∉ front) (s : List UInt8) :
    braceBlocks (front ++ 123 :: s) = matching 0 (123 :: s) :: braceBlocks s := by
  induction front with
  | nil => rfl
  | cons c front ih =>
    obtain ⟨hc, hfront⟩ := List.ne_and_not_mem_of_not_mem_cons h
    rw [List.cons_append, braceBlocks, if_neg hc.symm]
    exact ih hfront

theorem mem_braceBlocks {s : List UInt8} (h : some block ∈ braceBlocks s) :
    ∃ x v, s = x ++ 123 :: v ∧ matching 0 (123 :: v) = some block := by
  induction s with
  | nil => cases h
  | cons c s ih =>
    have hrest : some block ∈ braceBlocks s →
        ∃ x v, c :: s = x ++ 123 :: v ∧ matching 0 (123 :: v) = some block := by
      intro h
      obtain ⟨x, v, rfl, hblock⟩ := ih h
      exact ⟨c :: x, v, rfl, hblock⟩
    rw [braceBlocks] at h
    split at h
    · rename_i hc
      rcases List.mem_cons.mp h with hblock | h
      · exact ⟨[], s, by rw [hc]; rfl, by rw [hblock, hc]⟩
      · exact hrest h
    · exact hrest h

/-! ## Marks -/

/-- A pair of marks that calls are looked for between. -/
inductive Mark where
  | fence
  | plainFence
  | pythonTag
  | toolCall

namespace Mark

def first : Mark → List UInt8
  | fence => bytes "```json"
  | plainFence => bytes "```\n"
  | pythonTag => bytes "<|python_tag|>"
  | toolCall => bytes "<tool_call>"

def last : Mark → List UInt8
  | fence | plainFence => bytes "```"
  | pythonTag => bytes "<|eom_id|>"
  | toolCall => bytes "</tool_call>"

/-- The part that the marks enclose. -/
def find : Mark → List UInt8 → Option (List UInt8)
  | pythonTag, raw => behindTag pythonTag.first pythonTag.last raw
  | mark, raw => between mark.first mark.last raw

def all : List Mark := [fence, plainFence, pythonTag, toolCall]

theorem mem_all (mark : Mark) : mark ∈ all := by cases mark <;> simp [all]

end Mark

/-- Up to the end mark, or where there is none and none is asked for, all. -/
def Mark.part : Mark → List UInt8 → Option (List UInt8)
  | pythonTag, rest => some (((cut pythonTag.last rest).map Prod.fst).getD rest)
  | mark, rest => (cut mark.last rest).map Prod.fst

theorem Mark.find_eq (mark : Mark) (raw : List UInt8) :
    mark.find raw = (cut mark.first raw).bind fun halves => mark.part halves.2 := by
  have hbetween : between mark.first mark.last raw =
      (cut mark.first raw).bind fun halves => (cut mark.last halves.2).map Prod.fst := by
    unfold between
    cases cut mark.first raw with
    | none => rfl
    | some halves =>
      show (cut mark.last halves.2).bind _ = (cut mark.last halves.2).map Prod.fst
      cases cut mark.last halves.2 <;> rfl
  cases mark with
  | pythonTag =>
    show behindTag pythonTag.first pythonTag.last raw = _
    unfold behindTag
    cases cut pythonTag.first raw <;> rfl
  | fence | plainFence | toolCall => exact hbetween

theorem Mark.part_of_cut {mark : Mark} {rest back : List UInt8}
    (h : cut mark.last rest = some (block, back)) : mark.part rest = some block := by
  have hmap : (cut mark.last rest).map Prod.fst = some block := by
    rw [h]
    rfl
  cases mark with
  | pythonTag => exact congrArg (some ·) (congrArg (·.getD rest) hmap)
  | fence | plainFence | toolCall => exact hmap

theorem Mark.part_of_endless {rest : List UInt8} (h : ¬ pythonTag.last <:+: rest) :
    pythonTag.part rest = some rest := by
  show some (((cut pythonTag.last rest).map Prod.fst).getD rest) = _
  cases hcut : cut pythonTag.last rest with
  | none => rfl
  | some halves => exact absurd ⟨halves.1, halves.2, (cut_eq hcut).symm⟩ h

theorem Mark.part_eq_some {mark : Mark} {rest : List UInt8} (h : mark.part rest = some block) :
    (∃ back, cut mark.last rest = some (block, back)) ∨
      (mark = .pythonTag ∧ cut mark.last rest = none ∧ block = rest) := by
  cases hcut : cut mark.last rest with
  | some halves =>
    rw [part_of_cut (show cut mark.last rest = some (halves.1, halves.2) from hcut)] at h
    cases h
    exact .inl ⟨halves.2, rfl⟩
  | none =>
    cases mark with
    | pythonTag =>
      have hrest : some (((cut pythonTag.last rest).map Prod.fst).getD rest) = some block := h
      rw [hcut] at hrest
      exact .inr ⟨rfl, rfl, (Option.some.inj hrest).symm⟩
    | fence | plainFence | toolCall =>
      have hnone : (cut _ rest).map Prod.fst = some block := h
      rw [hcut] at hnone
      cases hnone

theorem Mark.part_isPrefix {mark : Mark} {rest : List UInt8} (h : mark.part rest = some block) :
    block <+: rest := by
  rcases part_eq_some h with ⟨back, hcut⟩ | ⟨-, -, rfl⟩
  · rw [cut_eq hcut, List.append_assoc]
    exact List.prefix_append _ _
  · exact List.prefix_rfl

/-! ## Where a mark can stand -/

/-- In a document it can stand in a string only. -/
structure Foreign (p : List UInt8) : Prop where
  starts : ∃ c w, p = c :: w ∧ c ∉ structural
  plain : ∀ c ∈ p, c ∉ [34, 92, 123, 125]

theorem Foreign.free {p : List UInt8} (hp : Foreign p) : 123 ∉ p ∧ 125 ∉ p :=
  ⟨fun hc => hp.plain 123 hc (by decide), fun hc => hp.plain 125 hc (by decide)⟩

theorem Mark.foreign_first (mark : Mark) : Foreign mark.first := by
  cases mark <;> exact ⟨⟨_, _, rfl, by decide +kernel⟩, by decide +kernel⟩

theorem Mark.foreign_last (mark : Mark) : Foreign mark.last := by
  cases mark <;> exact ⟨⟨_, _, rfl, by decide +kernel⟩, by decide +kernel⟩

theorem Mark.last_no_blank (mark : Mark) : ∀ c ∈ bytes " \t\n\r", c ∉ mark.last := by
  cases mark <;> decide +kernel

variable {p m : List UInt8}

theorem after_plain {q : Place} (hq : q ≠ outside) (ht : t ≠ [])
    (hplain : ∀ c ∈ t, c ≠ 34 ∧ c ≠ 92) : q.after t = inside := by
  induction t generalizing q with
  | nil => exact absurd rfl ht
  | cons c t ih =>
    obtain ⟨hc, htail⟩ := List.forall_mem_cons.mp hplain
    have hnext : q.next c = inside := by
      cases q with
      | outside => exact absurd rfl hq
      | inside => exact next_inside hc.1 hc.2
      | escaped => rfl
    rw [after_cons, hnext]
    by_cases hempty : t = []
    · rw [hempty]
      rfl
    · exact ih (by decide) hempty htail

theorem Foreign.inside (hp : Foreign p) (hm : Tidy m) {u v : List UInt8}
    (hd : 123 :: (m ++ [125]) = u ++ (p ++ v)) : outside.after (u ++ p) = inside := by
  obtain ⟨c, w, rfl, hc⟩ := hp.starts
  have hplain : ∀ d ∈ c :: w, d ≠ 34 ∧ d ≠ 92 := by
    intro d hd
    have hnone := hp.plain d hd
    simp only [List.mem_cons, not_or] at hnone
    exact ⟨hnone.1, hnone.2.1⟩
  rw [after_append]
  refine after_plain (fun hout => hc ?_) (List.cons_ne_nil _ _) hplain
  apply (tidy_braces hm).structural
  rw [hd, outer_append, hout, List.cons_append, outer_outside (hplain c List.mem_cons_self).1]
  exact List.mem_append_right _ List.mem_cons_self

/-- It stands before the document, in it, or behind it. -/
theorem Foreign.splits (hp : Foreign p) {x s front back : List UInt8}
    (h : x ++ (p ++ s) = front ++ (123 :: (m ++ [125]) ++ back)) :
    (∃ y, front = x ++ (p ++ y) ∧ s = y ++ (123 :: (m ++ [125]) ++ back)) ∨
      (∃ u v, 123 :: (m ++ [125]) = u ++ (p ++ v) ∧ x = front ++ u ∧ s = v ++ back) ∨
      ∃ y, back = y ++ (p ++ s) := by
  rcases before_or_behind hp.free.1 h with hfront | ⟨y, rfl, hy⟩
  · exact .inl hfront
  · have hbehind : y ++ (p ++ s) = m ++ 125 :: back :=
      hy.symm.trans (List.append_assoc m [125] back)
    rcases before_or_behind hp.free.2 hbehind with ⟨z, hm, hs⟩ | ⟨z, -, hz⟩
    · refine .inr (.inl ⟨123 :: y, z ++ [125], ?_, rfl, ?_⟩)
      · rw [hm]
        simp only [List.append_assoc, List.cons_append]
      · rw [hs, List.append_assoc]
        rfl
    · exact .inr (.inr ⟨z, hz⟩)

theorem blank_structural : ∀ c ∈ bytes " \t\n\r", c ∈ structural := by decide +kernel

theorem Foreign.not_in_blank (hp : Foreign p) (ht : Blank t) : ¬ p <:+: t := by
  obtain ⟨c, w, rfl, hc⟩ := hp.starts
  exact fun h => hc (blank_structural c (ht c (h.subset List.mem_cons_self)))

theorem Foreign.behind_blank (hp : Foreign p) (hs : Blank s) (h : p <:+: s ++ t) : p <:+: t := by
  rcases List.infix_append_iff.mp h with h | h | ⟨l, r, hsplit, hl, hr⟩
  · exact absurd h (hp.not_in_blank hs)
  · exact h
  · cases l with
    | nil =>
      rw [List.nil_append] at hsplit
      rw [hsplit]
      exact hr.isInfix
    | cons d l =>
      obtain ⟨c, w, rfl, hc⟩ := hp.starts
      obtain ⟨rfl, -⟩ := List.cons.inj hsplit
      exact absurd (blank_structural c (hs c (hl.subset List.mem_cons_self))) hc

/-- It is not between blanks and a document if it is not in the document. -/
theorem Foreign.not_around (hp : Foreign p) {before : List UInt8} (hbefore : Blank before)
    (hd : ¬ p <:+: 123 :: (m ++ [125])) (ht : ¬ p <:+: t) :
    ¬ p <:+: before ++ (123 :: (m ++ [125]) ++ t) := by
  rintro ⟨x, y, hxy⟩
  rw [List.append_assoc] at hxy
  rcases hp.splits hxy with ⟨z, hfront, -⟩ | ⟨u, v, hin, -⟩ | ⟨z, hback⟩
  · exact hp.not_in_blank hbefore ⟨x, z, by rw [hfront, List.append_assoc]⟩
  · exact hd ⟨u, v, by rw [hin, List.append_assoc]⟩
  · exact ht ⟨z, y, by rw [hback, List.append_assoc]⟩

/-- The end mark behind a stretch that does not have it, nor a part of it at the end. -/
theorem cut_behind {x rest : List UInt8} (hx : ¬ p <:+: x) (hend : ∀ c ∈ x.getLast?, c ∉ p) :
    cut p (x ++ (p ++ rest)) = some (x, rest) := by
  refine cut_of_first fun y z heq => ?_
  rcases List.append_eq_append_iff.mp heq with ⟨w, rfl, -⟩ | ⟨w, hsplit, hw⟩
  · rw [List.length_append]
    exact Nat.le_add_right _ _
  · by_cases hempty : w = []
    · exact Nat.le_of_eq (by rw [hsplit, hempty, List.append_nil])
    · rcases List.append_eq_append_iff.mp hw with ⟨v, hv, -⟩ | ⟨v, hv, -⟩
      · exact absurd ⟨y, v, by rw [hsplit, hv, List.append_assoc]⟩ hx
      · have hlast := List.getLast?_eq_some_getLast hempty
        refine absurd ?_ (hend (w.getLast hempty) ?_)
        · rw [hv]
          exact List.mem_append_left _ (List.getLast_mem hempty)
        · rw [hsplit, List.getLast?_append_of_ne_nil _ hempty]
          exact hlast

/-! ## Embedded calls -/

/-- Prose has no braces, no backticks and none of the tags. -/
structure Prose (t : List UInt8) : Prop where
  opening : 123 ∉ t
  closing : 125 ∉ t
  backtick : 96 ∉ t
  tags : ∀ tag ∈ ["<|python_tag|>", "<|eom_id|>", "<tool_call>", "</tool_call>"],
    ¬ bytes tag <:+: t

/-- The first characters of the marks: a backtick, or the bracket of a tag. -/
theorem Prose.not_first {t : List UInt8} (h : Prose t) (mark : Mark) : ¬ mark.first <:+: t := by
  cases mark with
  | fence => exact fun hin => h.backtick (hin.subset (by decide))
  | plainFence => exact fun hin => h.backtick (hin.subset (by decide))
  | pythonTag => exact h.tags _ (by decide)
  | toolCall => exact h.tags _ (by decide)

/-- A mark behind prose and the first character of a mark is behind that prose. -/
theorem Prose.mark_behind {t x y rest : List UInt8} {d : UInt8} (h : Prose t) (mark : Mark)
    (hd : d = 96 ∨ d = 60) (heq : t ++ d :: rest = x ++ (mark.first ++ y)) :
    ∃ w, x = t ++ w ∧ d :: rest = w ++ (mark.first ++ y) := by
  rcases List.append_eq_append_iff.mp heq with ⟨w, hx, hrest⟩ | ⟨w, ht, hrest⟩
  · exact ⟨w, hx, hrest⟩
  · -- a mark that begins in the prose would end in it, or have `d` in it
    have htag : ∀ {c : UInt8} {tail : List UInt8}, mark.first = c :: tail → d ∉ tail → w = [] := by
      intro c tail hfirst hc
      cases w with
      | nil => rfl
      | cons d' w =>
        rw [hfirst] at hrest
        obtain ⟨rfl, htail⟩ := List.cons.inj hrest
        rcases before_or_behind (x := []) hc htail with ⟨z, hz, -⟩ | ⟨z, hz, -⟩
        · refine absurd ⟨x, z, ?_⟩ (h.not_first mark)
          rw [hfirst, ht, hz, List.append_assoc]
          rfl
        · simp at hz
    have hfence : ∀ {tail : List UInt8}, mark.first = 96 :: tail → w = [] := by
      intro tail hfirst
      cases w with
      | nil => rfl
      | cons d' w =>
        rw [hfirst] at hrest
        obtain ⟨rfl, -⟩ := List.cons.inj hrest
        exact absurd (ht ▸ List.mem_append_right _ List.mem_cons_self) h.backtick
    have hempty : w = [] := by
      cases mark with
      | fence => exact hfence rfl
      | plainFence => exact hfence rfl
      | pythonTag => exact htag rfl (by rcases hd with rfl | rfl <;> decide)
      | toolCall => exact htag rfl (by rcases hd with rfl | rfl <;> decide)
    subst hempty
    exact ⟨[], by rw [ht, List.append_nil, List.append_nil], hrest.symm⟩

theorem Mark.first_starts (mark : Mark) : ∃ d tail, mark.first = d :: tail ∧ (d = 96 ∨ d = 60) := by
  cases mark <;> exact ⟨_, _, rfl, by decide⟩

theorem Mark.eq_of_first {own mark : Mark} {before w y : List UInt8}
    (hbefore : Blank before) (h : own.first ++ before = w ++ (mark.first ++ y)) : mark = own := by
  have hcount : ∀ c, c ∉ bytes " \t\n\r" →
      own.first.count c = w.count c + (mark.first.count c + y.count c) := by
    intro c hc
    have hsame := congrArg (List.count c) h
    rw [List.count_append, List.count_append, List.count_append,
      List.count_eq_zero_of_not_mem fun hmem => hc (hbefore c hmem), Nat.add_zero] at hsame
    exact hsame
  have h60 := hcount 60 (by decide)
  have h96 := hcount 96 (by decide)
  have htags : ∀ k : Mark, (k.first.count 60 = 1 ∧ k.first.count 96 = 0) ∨
      (k.first.count 60 = 0 ∧ k.first.count 96 = 3) := by
    intro k
    cases k <;> decide
  have hw : w.count 60 = 0 ∧ w.count 96 = 0 := by
    rcases htags own with hown | hown <;> rcases htags mark with hmark | hmark <;> omega
  have hempty : w = [] := by
    obtain ⟨d, tail, hfirst, hd⟩ := own.first_starts
    cases w with
    | nil => rfl
    | cons e w =>
      rw [hfirst] at h
      obtain ⟨rfl, -⟩ := List.cons.inj h
      rw [List.count_eq_zero, List.count_eq_zero] at hw
      rcases hd with rfl | rfl
      · exact absurd List.mem_cons_self hw.2
      · exact absurd List.mem_cons_self hw.1
  have hlength : ∀ k : Mark, 4 ≤ k.first.length := by
    intro k
    cases k <;> decide
  have htake := congrArg (List.take 4) h
  rw [hempty, List.nil_append, List.take_append_of_le_length (hlength own),
    List.take_append_of_le_length (hlength mark)] at htake
  cases own <;> cases mark <;> first | rfl | exact absurd htake (by decide)

/-- Prose is cut at the mark behind it. -/
theorem Prose.cut_mark {t rest : List UInt8} (h : Prose t) (mark : Mark) :
    cut mark.first (t ++ (mark.first ++ rest)) = some (t, rest) := by
  refine cut_of_first fun x y heq => ?_
  obtain ⟨d, tail, hfirst, hd⟩ := mark.first_starts
  have hbehind : t ++ d :: (tail ++ rest) = x ++ (mark.first ++ y) := by
    rw [← heq, hfirst, List.cons_append]
  obtain ⟨w, rfl, -⟩ := h.mark_behind mark hd hbehind
  rw [List.length_append]
  exact Nat.le_add_right _ _

/-- White space next to a mark. -/
abbrev Gap := {t : List UInt8 // Blank t}

/-- What is around a call; `unended` is the tag whose end mark may be left out. -/
inductive Wrapping where
  | bare
  | marked (mark : Mark) (before after : Gap)
  | unended (before after : Gap)

namespace Wrapping

def opening : Wrapping → List UInt8
  | bare => []
  | marked mark before _ => mark.first ++ before
  | unended before _ => Mark.pythonTag.first ++ before

def closing : Wrapping → List UInt8
  | bare => []
  | marked mark _ after => after ++ mark.last
  | unended _ after => after

end Wrapping

/-- A call in a text of a model. -/
structure Embedding (text : JsonText) where
  call : EmbeddedCall text
  wrapping : Wrapping
  pre : List UInt8
  post : List UInt8
  prose_pre : Prose pre
  prose_post : Prose post

namespace Embedding

variable {text : JsonText} {unescape : List UInt8 → String} (e : Embedding text)

def front : List UInt8 := e.pre ++ e.wrapping.opening

def back : List UInt8 := e.wrapping.closing ++ e.post

def raw : List UInt8 := e.front ++ (e.call.dump ++ e.back)

/-- One call is found, with the name and the arguments. -/
def Recovered : Prop :=
  ∃ found, parseToolCalls text e.raw = .ok [found] ∧
    (functionOf found).field? "name" = some (.string e.call.name) ∧
    (functionOf found).field? "arguments" = some e.call.arguments.canon

/-- The part that is enclosed is the document, and what a reader passes over. -/
def Apart : Prop :=
  match e.wrapping with
  | .bare => Leading e.pre ∧ Trailing e.post
  | .marked mark _ _ => ¬ mark.last <:+: e.call.dump
  | .unended _ after => ¬ Mark.pythonTag.last <:+: e.call.dump ∧ Trailing (after ++ e.post)

theorem blank_free {t : List UInt8} (h : Blank t) : 123 ∉ t ∧ 125 ∉ t :=
  ⟨fun hc => absurd (h 123 hc) (by decide), fun hc => absurd (h 125 hc) (by decide)⟩

theorem front_free : 123 ∉ e.front := by
  unfold front
  rw [List.mem_append, not_or]
  refine ⟨e.prose_pre.opening, ?_⟩
  cases e.wrapping with
  | bare => exact List.not_mem_nil
  | marked mark before after =>
    exact fun h => (List.mem_append.mp h).elim mark.foreign_first.free.1 (blank_free before.2).1
  | unended before after =>
    exact fun h => (List.mem_append.mp h).elim Mark.pythonTag.foreign_first.free.1
      (blank_free before.2).1

theorem back_free : 123 ∉ e.back ∧ 125 ∉ e.back := by
  unfold back
  rw [List.mem_append, List.mem_append, not_or, not_or]
  have hclosing : 123 ∉ e.wrapping.closing ∧ 125 ∉ e.wrapping.closing := by
    cases e.wrapping with
    | bare => exact ⟨List.not_mem_nil, List.not_mem_nil⟩
    | marked mark before after =>
      constructor
      · exact fun h => (List.mem_append.mp h).elim (blank_free after.2).1 mark.foreign_last.free.1
      · exact fun h => (List.mem_append.mp h).elim (blank_free after.2).2 mark.foreign_last.free.2
    | unended before after => exact blank_free after.2
  exact ⟨⟨hclosing.1, e.prose_post.opening⟩, hclosing.2, e.prose_post.closing⟩

/-- A part that begins before the document has the call or none. -/
theorem extractCalls_front (hs : text.Shaped unescape) {y : List UInt8} (hy : 123 ∉ y)
    (hblock : block <+: y ++ (e.call.dump ++ e.back)) :
    extractCalls text block = .ok [] ∨ ∃ z, block = y ++ (e.call.dump ++ z) ∧ Leading y ∧
      Trailing z ∧ extractCalls text block = .ok [e.call.found] := by
  rcases object_or_no_calls text block with ⟨fields, hparse⟩ | hnone
  · obtain ⟨m, hdump, hm⟩ := e.call.dump_braces hs
    rw [hdump] at hblock
    obtain ⟨z, rfl, hlead, hrest⟩ := parse_from_front hs hy e.back_free.2 hm hblock hparse
    rw [← hdump]
    exact .inr ⟨z, rfl, hlead, hrest, e.call.extractCalls_dump hs hlead hrest⟩
  · exact .inl hnone

/-- What is found between marks has the call or none; it has it if the marks are around it. -/
theorem extractCalls_find (hs : text.Shaped unescape) {mark : Mark}
    (h : mark.find e.raw = some block) :
    extractCalls text block = .ok [] ∨ ∃ x y z, e.front = x ++ (mark.first ++ y) ∧
      mark.part (y ++ (e.call.dump ++ e.back)) = some block ∧ block = y ++ (e.call.dump ++ z) ∧
      Leading y ∧ Trailing z ∧ extractCalls text block = .ok [e.call.found] := by
  obtain ⟨m, hdump, hm⟩ := e.call.dump_braces hs
  rw [Mark.find_eq] at h
  obtain ⟨⟨x, rest⟩, hcut, hpart⟩ := Option.bind_eq_some_iff.mp h
  have hblock := Mark.part_isPrefix hpart
  have hraw : x ++ (mark.first ++ rest) = e.front ++ (123 :: (m ++ [125]) ++ e.back) := by
    rw [← List.append_assoc, ← cut_eq hcut, raw, hdump]
  rcases mark.foreign_first.splits hraw with ⟨y, hfront, rfl⟩ | ⟨u, v, hd, -, rfl⟩ | ⟨y, hback⟩
  · have hy : 123 ∉ y := fun hc => e.front_free (hfront ▸ by simp [hc])
    rw [← hdump] at hblock hpart
    rcases e.extractCalls_front hs hy hblock with hnone | ⟨z, hz, hlead, hrest, hfound⟩
    · exact .inl hnone
    · exact .inr ⟨x, y, z, hfront, hpart, hz, hlead, hrest, hfound⟩
  · have hplace := mark.foreign_first.inside hm hd
    rw [← List.append_assoc] at hd
    refine .inl (extractCalls_inside hs hm e.back_free.2 hd
      (fun c hc => absurd hc List.not_mem_nil) ?_ hblock)
    rw [List.append_nil]
    exact hplace
  · refine .inl (extractCalls_free hs fun hc => e.back_free.1 ?_)
    rw [hback]
    exact List.mem_append_right _ (List.mem_append_right _ (hblock.subset hc))

/-- The attempts before braces are counted. -/
def marked : List (Option (List UInt8)) := some e.raw :: Mark.all.map (·.find e.raw)

theorem marked_harmless (hs : text.Shaped unescape) (h : some block ∈ e.marked) :
    extractCalls text block = .ok [] ∨ extractCalls text block = .ok [e.call.found] := by
  rcases List.mem_cons.mp h with hraw | hmark
  · cases hraw
    rcases e.extractCalls_front hs e.front_free List.prefix_rfl with hnone | ⟨_, _, _, _, hfound⟩
    · exact .inl hnone
    · exact .inr hfound
  · obtain ⟨mark, -, hfind⟩ := List.mem_map.mp hmark
    rcases e.extractCalls_find hs hfind with hnone | ⟨_, _, _, _, _, _, _, _, hfound⟩
    · exact .inl hnone
    · exact .inr hfound

/-! ### When it is found -/

theorem attempts_marked : attempts e.raw = e.marked ++ braceBlocks e.raw := rfl

theorem recovered_of_found (h : parseToolCalls text e.raw = .ok [e.call.found]) : e.Recovered :=
  ⟨e.call.found, h, rfl, rfl⟩

theorem recovered_of_marked (hs : text.Shaped unescape) (hblock : some block ∈ e.marked)
    (hfound : extractCalls text block = .ok [e.call.found]) : e.Recovered :=
  e.recovered_of_found (firstCalls_found (fun _ h => e.marked_harmless hs h) hblock hfound)

/-- If the braces of the document match, it is the first block. -/
theorem recovered_of_enclosed (hs : text.Shaped unescape) (h : Enclosed 123 125 e.call.dump) :
    e.Recovered := by
  obtain ⟨m, hdump, -⟩ := e.call.dump_braces hs
  have hblocks : ∃ more, attempts e.raw = (e.marked ++ [some e.call.dump]) ++ more := by
    have hraw : e.raw = e.front ++ 123 :: (m ++ [125] ++ e.back) := by
      unfold raw
      rw [hdump]
      rfl
    rw [hdump] at h ⊢
    refine ⟨braceBlocks (m ++ [125] ++ e.back), ?_⟩
    rw [attempts_marked, List.append_assoc]
    congr 1
    rw [hraw, braceBlocks_front e.front_free, matching_zero.mpr ⟨List.prefix_append _ _, h⟩]
    rfl
  obtain ⟨more, hmore⟩ := hblocks
  have hfound : extractCalls text e.call.dump = .ok [e.call.found] := by
    have hnil : Blank [] := fun _ hc => absurd hc List.not_mem_nil
    have hdocument := e.call.extractCalls_dump hs (.blank hnil) (.blank hnil)
    rwa [List.nil_append, List.append_nil] at hdocument
  apply e.recovered_of_found
  unfold parseToolCalls
  rw [hmore]
  refine firstCalls_found (fun block hblock => ?_) (List.mem_append_right _ List.mem_cons_self)
    hfound
  rcases List.mem_append.mp hblock with hmarked | hdocument
  · exact e.marked_harmless hs hmarked
  · cases List.mem_singleton.mp hdocument
    exact .inr hfound

/-- The part that the marks enclose is one that calls are looked for in. -/
theorem find_mem_marked {mark : Mark} {rest : List UInt8}
    (hraw : e.raw = e.pre ++ (mark.first ++ rest)) (hpart : mark.part rest = some block) :
    some block ∈ e.marked := by
  refine List.mem_cons_of_mem _ (List.mem_map.mpr ⟨mark, mark.mem_all, ?_⟩)
  rw [Mark.find_eq, hraw, e.prose_pre.cut_mark mark]
  exact hpart

/-- A document with blanks around it ends in no part of an end mark. -/
theorem cut_document (hs : text.Shaped unescape) {mark : Mark} {before after : List UInt8}
    (rest : List UInt8) (hbefore : Blank before) (hafter : Blank after)
    (h : ¬ mark.last <:+: e.call.dump) :
    cut mark.last (before ++ (e.call.dump ++ after) ++ (mark.last ++ rest)) =
      some (before ++ (e.call.dump ++ after), rest) := by
  obtain ⟨m, hdump, -⟩ := e.call.dump_braces hs
  rw [hdump] at h ⊢
  apply cut_behind (mark.foreign_last.not_around hbefore h (mark.foreign_last.not_in_blank hafter))
  have hends : ∃ x d, before ++ (123 :: (m ++ [125]) ++ after) = x ++ [d] ∧ d ∉ mark.last := by
    rcases List.eq_nil_or_concat after with rfl | ⟨gap, d, rfl⟩
    · exact ⟨before ++ 123 :: m, 125, by simp, mark.foreign_last.free.2⟩
    · exact ⟨before ++ (123 :: (m ++ [125]) ++ gap), d, by simp,
        mark.last_no_blank d (hafter d (by simp))⟩
  obtain ⟨x, d, hx, hd⟩ := hends
  intro c hc
  rw [hx, List.getLast?_concat, Option.mem_some_iff] at hc
  exact hc ▸ hd

/-- If the document is apart, the part that the marks enclose has it. -/
theorem recovered_of_apart (hs : text.Shaped unescape) (h : e.Apart) : e.Recovered := by
  obtain ⟨m, hdump, -⟩ := e.call.dump_braces hs
  unfold Apart at h
  cases hwrapping : e.wrapping with
  | bare =>
    rw [hwrapping] at h
    have hraw : e.raw = e.pre ++ (e.call.dump ++ e.post) := by
      unfold raw front back
      rw [hwrapping]
      exact congrArg (· ++ (e.call.dump ++ e.post)) (List.append_nil e.pre)
    have hfound := e.call.extractCalls_dump hs h.1 h.2
    rw [← hraw] at hfound
    exact e.recovered_of_marked hs List.mem_cons_self hfound
  | marked mark before after =>
    rw [hwrapping] at h
    have hraw : e.raw = e.pre ++ (mark.first ++
        (before ++ (e.call.dump ++ after) ++ (mark.last ++ e.post))) := by
      unfold raw front back
      rw [hwrapping]
      show (e.pre ++ (mark.first ++ before)) ++ (_ ++ ((after ++ mark.last) ++ e.post)) = _
      simp only [List.append_assoc]
    have hpart := Mark.part_of_cut (e.cut_document hs e.post before.2 after.2 h)
    exact e.recovered_of_marked hs (e.find_mem_marked hraw hpart)
      (e.call.extractCalls_dump hs (.blank before.2) (.blank after.2))
  | unended before after =>
    rw [hwrapping] at h
    have hraw : e.raw = e.pre ++ (Mark.pythonTag.first ++
        (before ++ (e.call.dump ++ (after ++ e.post)))) := by
      unfold raw front back
      rw [hwrapping]
      show (e.pre ++ (Mark.pythonTag.first ++ before)) ++ (_ ++ (after ++ e.post)) = _
      simp only [List.append_assoc]
    have hpart : Mark.pythonTag.part (before ++ (e.call.dump ++ (after ++ e.post))) =
        some (before ++ (e.call.dump ++ (after ++ e.post))) := by
      have hnone : ¬ Mark.pythonTag.last <:+: before ++ (e.call.dump ++ (after ++ e.post)) := by
        have hlast := Mark.pythonTag.foreign_last
        rw [hdump] at h ⊢
        exact hlast.not_around before.2 h.1 fun hin =>
          e.prose_post.tags _ (by decide) (hlast.behind_blank after.2 hin)
      exact Mark.part_of_endless hnone
    exact e.recovered_of_marked hs (e.find_mem_marked hraw hpart)
      (e.call.extractCalls_dump hs (.blank before.2) h.2)

/-! ### When it is not found -/

/-- A mark before the document is the one it is wrapped in. -/
theorem mark_of_front {mark : Mark} {x y : List UInt8} (h : e.front = x ++ (mark.first ++ y)) :
    (∃ before after, e.wrapping = .marked mark before after) ∨
      (mark = .pythonTag ∧ ∃ before after, e.wrapping = .unended before after) := by
  have hown : ∀ (own : Mark) (before : Gap), e.wrapping.opening = own.first ++ before →
      mark = own := by
    intro own before hopening
    obtain ⟨d, tail, hfirst, hd⟩ := own.first_starts
    have hbehind : e.pre ++ d :: (tail ++ before) = x ++ (mark.first ++ y) := by
      rw [← h, front, hopening, hfirst, List.cons_append]
    obtain ⟨w, -, hw⟩ := e.prose_pre.mark_behind mark hd hbehind
    rw [← List.cons_append, ← hfirst] at hw
    exact Mark.eq_of_first before.2 hw
  cases hwrapping : e.wrapping with
  | bare =>
    have hfront : e.front = e.pre := by
      unfold front
      rw [hwrapping]
      exact List.append_nil e.pre
    exact absurd ⟨x, y, by rw [← hfront, h, List.append_assoc]⟩ (e.prose_pre.not_first mark)
  | marked own before after =>
    obtain rfl := hown own before (by rw [hwrapping]; rfl)
    exact .inl ⟨before, after, rfl⟩
  | unended before after =>
    exact .inr ⟨hown _ before (by rw [hwrapping]; rfl), before, after, rfl⟩

/-- If all of the document is in the part, no end mark is. -/
theorem last_not_in {mark : Mark} {y z : List UInt8}
    (hpart : mark.part (y ++ (e.call.dump ++ e.back)) = some (y ++ (e.call.dump ++ z))) :
    ¬ mark.last <:+: e.call.dump := by
  rintro ⟨u, v, hd⟩
  have hrest : y ++ (e.call.dump ++ e.back) = (y ++ u) ++ (mark.last ++ (v ++ e.back)) := by
    rw [← hd]
    simp only [List.append_assoc]
  rcases Mark.part_eq_some hpart with ⟨back, hcut⟩ | ⟨-, hnone, -⟩
  · have hle := cut_first hcut hrest
    have hlength := congrArg List.length hd
    have hpos : 0 < mark.last.length := by cases mark <;> decide
    simp only [List.length_append] at hle hlength
    omega
  · exact cut_eq_none hnone ⟨y ++ u, v ++ e.back, by rw [hrest, List.append_assoc]⟩

/-- A part that marks enclose is the document and blanks only if the document is apart. -/
theorem apart_of_part {mark : Mark} {x y z : List UInt8}
    (hfront : e.front = x ++ (mark.first ++ y))
    (hpart : mark.part (y ++ (e.call.dump ++ e.back)) = some (y ++ (e.call.dump ++ z)))
    (hz : Trailing z) : e.Apart := by
  have hlast := e.last_not_in hpart
  unfold Apart
  rcases e.mark_of_front hfront with ⟨before, after, hwrapping⟩ | ⟨rfl, before, after, hwrapping⟩
  · rw [hwrapping]
    exact hlast
  · rw [hwrapping]
    refine ⟨hlast, ?_⟩
    have hback : e.back = after ++ e.post := by
      unfold back
      rw [hwrapping]
      rfl
    rw [← hback]
    rcases Mark.part_eq_some hpart with ⟨more, hcut⟩ | ⟨-, -, hrest⟩
    · have heq := cut_eq hcut
      rw [List.append_assoc, List.append_assoc, List.append_assoc] at heq
      have hin := List.append_cancel_left (List.append_cancel_left heq)
      rw [hback] at hin
      refine absurd ?_ (e.prose_post.tags "<|eom_id|>" (by decide))
      exact Mark.pythonTag.foreign_last.behind_blank after.2
        ⟨z, more, by rw [hin, List.append_assoc]⟩
    · rw [← List.append_cancel_left (List.append_cancel_left hrest)]
      exact hz

/-- Where the document is not apart, no part that marks enclose has a call. -/
theorem marked_none (hs : text.Shaped unescape) (h : ¬ e.Apart) (hblock : some block ∈ e.marked) :
    extractCalls text block = .ok [] := by
  rcases List.mem_cons.mp hblock with hraw | hmark
  · cases hraw
    rcases e.extractCalls_front hs e.front_free List.prefix_rfl with
      hnone | ⟨z, hz, hlead, hrest, -⟩
    · exact hnone
    · rw [← List.append_cancel_left (List.append_cancel_left hz)] at hrest
      -- a reader passes over no mark
      have hmarked : ∀ (own : Mark) (before : Gap), e.wrapping.opening ≠ own.first ++ before := by
        intro own before hopening
        obtain ⟨d, tail, hfirst, hd⟩ := own.first_starts
        have hmem : d ∈ e.front := by
          rw [front, hopening, hfirst]
          exact List.mem_append_right _ List.mem_cons_self
        have hpassed := hlead.mem hmem
        rcases hd with rfl | rfl <;> exact absurd hpassed (by decide)
      refine absurd ?_ h
      unfold Apart
      cases hwrapping : e.wrapping with
      | bare =>
        unfold front at hlead
        unfold back at hrest
        rw [hwrapping] at hlead hrest
        exact ⟨List.append_nil e.pre ▸ hlead, hrest⟩
      | marked own before after => exact absurd (by rw [hwrapping]; rfl) (hmarked own before)
      | unended before after => exact absurd (by rw [hwrapping]; rfl) (hmarked .pythonTag before)
  · obtain ⟨mark, -, hfind⟩ := List.mem_map.mp hmark
    rcases e.extractCalls_find hs hfind with hnone | ⟨x, y, z, hfront, hpart, rfl, -, hrest, -⟩
    · exact hnone
    · exact absurd (e.apart_of_part hfront hpart hrest) h

/-- The braces of the text are those of the document. -/
theorem brace_in_dump {x v : List UInt8} (h : e.raw = x ++ 123 :: v) :
    ∃ x' v', e.call.dump = x' ++ 123 :: v' ∧ v = v' ++ e.back := by
  obtain ⟨x', hrest⟩ : ∃ x', e.call.dump ++ e.back = x' ++ 123 :: v := by
    rcases List.append_eq_append_iff.mp h with ⟨x', -, hrest⟩ | ⟨w, hfront, hrest⟩
    · exact ⟨x', hrest⟩
    · cases w with
      | nil => exact ⟨[], hrest.symm⟩
      | cons d w =>
        obtain ⟨rfl, -⟩ := List.cons.inj hrest
        exact absurd (hfront ▸ List.mem_append_right _ List.mem_cons_self) e.front_free
  rcases List.append_eq_append_iff.mp hrest with ⟨w, -, hback⟩ | ⟨w, hdump, hw⟩
  · exact absurd (hback ▸ List.mem_append_right _ List.mem_cons_self) e.back_free.1
  · cases w with
    | nil =>
      rw [List.nil_append] at hw
      exact absurd (hw ▸ List.mem_cons_self) e.back_free.1
    | cons d w =>
      obtain ⟨rfl, hv⟩ := List.cons.inj hw
      exact ⟨x', w, hdump, hv⟩

/-- Where its braces do not match, no block has the call. -/
theorem braces_none (hs : text.Shaped unescape) (h : ¬ Enclosed 123 125 e.call.dump)
    (hblock : some block ∈ braceBlocks e.raw) {found : Json}
    (hfound : extractCalls text block = .ok [found]) :
    (functionOf found).field? "arguments" ≠ some e.call.arguments.canon := by
  obtain ⟨m, hdump, hm⟩ := e.call.dump_braces hs
  obtain ⟨x, v, hraw, hmatching⟩ := mem_braceBlocks hblock
  obtain ⟨x', v', hx', rfl⟩ := e.brace_in_dump hraw
  have hstart := matching_isPrefix hmatching
  have hcalls : extractCalls text block ≠ .ok [] := by
    rw [hfound]
    exact fun h => List.cons_ne_nil _ _ (Except.ok.inj h)
  -- behind a brace in a string, the block has no call
  have hinside : outside.after (x' ++ [123]) = inside → False := by
    intro hplace
    refine hcalls (extractCalls_inside hs hm e.back_free.2 ?_ ?_ hplace hstart)
    · rw [← hdump, hx']
      rfl
    · exact fun c hc => List.mem_singleton.mp hc
  cases hplace : outside.after x' with
  | outside =>
    by_cases hempty : x' = []
    · rw [hempty, List.nil_append] at hx'
      have hfront : block <+: [] ++ (e.call.dump ++ e.back) := by
        rw [hx']
        exact hstart
      rcases e.extractCalls_front hs List.not_mem_nil hfront with hnone | ⟨z, hz, -⟩
      · exact absurd hnone hcalls
      · rw [hz, hx'] at hmatching
        obtain ⟨⟨more, hmore⟩, henclosed⟩ := matching_zero.mp hmatching
        have hback : z ++ more = e.back :=
          List.append_cancel_left ((List.append_assoc v' z more).symm.trans hmore)
        obtain rfl := henclosed.end_eq_nil (s := 123 :: v') (List.cons_ne_nil _ _)
          (fun hc => e.back_free.1 (hback ▸ List.mem_append_left _ hc))
          (fun hc => e.back_free.2 (hback ▸ List.mem_append_left _ hc))
        refine absurd ?_ h
        rw [hx']
        exact List.append_nil v' ▸ henclosed
    · rcases object_or_no_calls text block with ⟨fields, hparse⟩ | hnone
      · exact e.call.arguments_ne hs hparse (e.call.strings_within hs hempty hx' hplace
          e.back_free.2 hstart hparse) hfound
      · exact absurd hnone hcalls
  | inside | escaped =>
    refine absurd (hinside ?_) id
    rw [after_append, hplace]
    rfl

/-- The call is found exactly if its braces match, those in its strings counted too, or if it is
    apart from what is around it. -/
theorem recovered_iff (e : Embedding text) (hs : text.Shaped unescape) :
    e.Recovered ↔ Enclosed 123 125 e.call.dump ∨ e.Apart := by
  constructor
  · rintro ⟨found, hparse, -, hargs⟩
    by_contra hnone
    obtain ⟨henclosed, hapart⟩ := not_or.mp hnone
    unfold parseToolCalls at hparse
    rw [attempts_marked, firstCalls_none fun _ h => e.marked_none hs hapart h] at hparse
    obtain ⟨block, hblock, hfound⟩ := firstCalls_eq hparse (List.cons_ne_nil _ _)
    exact e.braces_none hs henclosed hblock hfound hargs
  · rintro (h | h)
    · exact e.recovered_of_enclosed hs h
    · exact e.recovered_of_apart hs h

end Embedding

/-! ## A brace in a string -/

/-- A call with a brace in its arguments. -/
def braced : EmbeddedCall CanonicalJson.lenient where
  name := "f"
  fields := [("s", .string "\x7d")]
  named := by decide
  written := .object (by decide) fun f hf => by
    rw [List.mem_singleton.mp hf]
    exact .string _
  encodes := rfl

theorem prose_of_plain {t : List UInt8} (h : ∀ c ∈ t, c ∉ [123, 125, 96, 60]) : Prose t where
  opening hc := h 123 hc (by decide)
  closing hc := h 125 hc (by decide)
  backtick hc := h 96 hc (by decide)
  tags tag htag hin := by
    have hall : ∀ tag ∈ ["<|python_tag|>", "<|eom_id|>", "<tool_call>", "</tool_call>"],
        60 ∈ bytes tag := by decide
    exact h 60 (hin.subset (hall tag htag)) (by decide)

def bracedIn (wrapping : Wrapping) : Embedding CanonicalJson.lenient where
  call := braced
  wrapping := wrapping
  pre := bytes "Call: "
  post := []
  prose_pre := prose_of_plain (by decide +kernel)
  prose_post := prose_of_plain (by decide +kernel)

/-- In a fence it is found. -/
theorem braced_in_fence :
    (bracedIn (.marked .fence ⟨bytes "\n", by decide⟩ ⟨bytes "\n", by decide⟩)).Recovered := by
  refine (Embedding.recovered_iff _ CanonicalJson.lenient_shaped).mpr (.inr ?_)
  show ¬ bytes "```" <:+: braced.dump
  decide +kernel

/-- In prose it is not: the braces are counted up to the one in the string. -/
theorem brace_in_string : ¬ (bracedIn .bare).Recovered := by
  have hall : (attempts (bracedIn .bare).raw).all
      (fun block => (block.bind CanonicalJson.lenient.parse).isNone) = true := by
    decide +kernel
  have hempty : ∀ block, some block ∈ attempts (bracedIn .bare).raw →
      extractCalls CanonicalJson.lenient block = .ok [] := by
    intro block hblock
    have hparse : CanonicalJson.lenient.parse block = none :=
      Option.isNone_iff_eq_none.mp (List.all_eq_true.mp hall _ hblock)
    exact extractCalls_no_object fun fields h => Option.some_ne_none _ (h.symm.trans hparse)
  have hnone : firstCalls CanonicalJson.lenient (attempts (bracedIn .bare).raw ++ []) = .ok [] :=
    firstCalls_none hempty
  rw [List.append_nil] at hnone
  rintro ⟨found, hfound, -⟩
  unfold parseToolCalls at hfound
  rw [hnone] at hfound
  cases hfound

end TruellmEngine.Server

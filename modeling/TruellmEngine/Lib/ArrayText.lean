/-
  The text of an array, put together from the texts of its items.

  A reader passes over a byte order mark in front of a document and stops at a null character,
  so a text that is read alone need not be one that can stand in an array: `Embeddable`.
  `JsonText.Arrays` is what is asked of a reader. `strict` takes nothing but canonical text;
  `strict_faithful` and `strict_arrays` are the two sets of rules for it.
-/
import Mathlib.Data.List.Forall2
import TruellmEngine.Lib.CanonicalJson

namespace TruellmEngine.Lib

/-- Neither a byte order mark in front nor a null character. -/
structure Embeddable (raw : List UInt8) : Prop where
  unmarked : ¬ [239, 187, 191] <+: raw
  unended : 0 ∉ raw

def arrayText (parts : List String) : String := "[" ++ ",".intercalate parts ++ "]"

namespace JsonText

/-- The text of one document, alone and in an array. -/
def Item (text : JsonText) (part : String) : Prop :=
  (∃ x, text.parse (bytes part) = some x) ∧ Embeddable (bytes part)

structure Arrays (text : JsonText) : Prop where
  parse_arrayText {parts : List String} {xs : List Json} :
    List.Forall₂ (fun part x => text.parse (bytes part) = some x) parts xs →
      (text.parse (bytes (arrayText parts)) = some (.array xs) ↔
        ∀ part ∈ parts, Embeddable (bytes part))
  embeddable_dump {j : Json} : text.encodes j = true → Embeddable (bytes (text.dump j))
  parse_braces : text.parse (bytes "\x7b\x7d") = some (.object [])

variable {text : JsonText}

/-- Texts put together are an array of what each is alone just if each is an item. -/
theorem Arrays.items_iff (h : text.Arrays) (parts : List String) :
    (∃ xs, text.parse (bytes (arrayText parts)) = some (.array xs) ∧
      List.Forall₂ (fun part x => text.parse (bytes part) = some x) parts xs) ↔
    ∀ part ∈ parts, text.Item part := by
  constructor
  · rintro ⟨xs, hparse, hparts⟩ part hpart
    have hread := (List.forall₂_and_left _ _).mp
      (hparts.imp fun _ x hx => And.intro (Exists.intro x hx) hx)
    exact ⟨hread.1 part hpart, (h.parse_arrayText hparts).mp hparse part hpart⟩
  · intro hitems
    have hparts : ∃ xs, List.Forall₂ (fun part x => text.parse (bytes part) = some x) parts xs := by
      clear h
      induction parts with
      | nil => exact ⟨[], .nil⟩
      | cons part parts ih =>
        obtain ⟨⟨x, hx⟩, -⟩ := hitems part List.mem_cons_self
        obtain ⟨xs, hxs⟩ := ih fun p hp => hitems p (List.mem_cons_of_mem part hp)
        exact ⟨x :: xs, .cons hx hxs⟩
    obtain ⟨xs, hxs⟩ := hparts
    exact ⟨xs, (h.parse_arrayText hxs).mpr fun part hpart => (hitems part hpart).2, hxs⟩

theorem Arrays.item_dump (h : text.Arrays) (hf : text.Faithful) {j : Json}
    (hwritten : text.Written j) (hencodes : text.encodes j = true) : text.Item (text.dump j) :=
  ⟨⟨_, hf.readsBack hwritten hencodes⟩, h.embeddable_dump hencodes⟩

end JsonText

/-! ## A reader of canonical text only -/

namespace CanonicalJson

mutual

theorem print_canon : ∀ j : Json, print j.canon = print j
  | .null | .boolean _ | .unsigned _ | .float _ | .string _ => rfl
  | .integer i => by
    by_cases hi : 0 ≤ i
    · rw [Json.canon, if_pos hi, print, print, if_pos hi, Int64.toNat_toUInt64_of_le hi,
        Int64.toNatClampNeg]
    · rw [Json.canon, if_neg hi]
  | .array [] => rfl
  | .array (x :: xs) => by
    show '[' :: print x.canon ++ printItems (Json.canons xs) = '[' :: print x ++ printItems xs
    rw [print_canon x, printItems_canons xs]
  | .object [] => rfl
  | .object ((key, v) :: fields) => by
    show '\x7b' :: quote key ++ ':' :: print v.canon ++ printFields (Json.canonFields fields) =
      '\x7b' :: quote key ++ ':' :: print v ++ printFields fields
    rw [print_canon v, printFields_canonFields fields]

theorem printItems_canons : ∀ xs : List Json, printItems (Json.canons xs) = printItems xs
  | [] => rfl
  | x :: xs => by
    show ',' :: print x.canon ++ printItems (Json.canons xs) = ',' :: print x ++ printItems xs
    rw [print_canon x, printItems_canons xs]

theorem printFields_canonFields : ∀ fields : List (String × Json),
    printFields (Json.canonFields fields) = printFields fields
  | [] => rfl
  | (key, v) :: fields => by
    show ',' :: quote key ++ ':' :: print v.canon ++ printFields (Json.canonFields fields) =
      ',' :: quote key ++ ':' :: print v ++ printFields fields
    rw [print_canon v, printFields_canonFields fields]

end

/-- Reads what `canonical` writes, and nothing else. -/
def strict : JsonText where
  parse raw := (parse raw).filter fun j => bytes (canonical.dump j) = raw
  dump := canonical.dump
  encodes := plain

theorem strict_parse_iff {raw : List UInt8} {j : Json} :
    strict.parse raw = some j ↔ parse raw = some j ∧ bytes (canonical.dump j) = raw :=
  Option.filter_eq_some_iff.trans (and_congr_right fun _ => decide_eq_true_iff)

theorem dump_canon (j : Json) : canonical.dump j.canon = canonical.dump j :=
  congrArg String.ofList (print_canon j)

theorem strict_reads {j : Json} (hplain : plain j = true) (hordered : ordered j = true) :
    strict.parse (bytes (canonical.dump j)) = some j.canon :=
  strict_parse_iff.mpr ⟨canonical_reads hplain hordered, congrArg bytes (dump_canon j)⟩

/-- What is read is a document as a reader gives it back. -/
theorem canon_of_strict {raw : List UInt8} {j : Json} (h : strict.parse raw = some j) :
    plain j = true ∧ ordered j = true ∧ j.canon = j := by
  obtain ⟨hparse, hraw⟩ := strict_parse_iff.mp h
  obtain ⟨hplain, hordered⟩ := parsed_checked hparse
  have hback := canonical_reads hplain hordered
  rw [hraw, canonical_parse, hparse] at hback
  exact ⟨hplain, hordered, (Option.some.inj hback).symm⟩

theorem strict_faithful : strict.Faithful where
  readsBack hwritten hplain :=
    strict_reads hplain (ordered_of_written (fun h => (canon_of_strict h).2.1) hwritten)
  oneLine := canonical_faithful.oneLine
  encodes_parsed hparsed := (canon_of_strict hparsed).1
  encodes_dump := canonical_faithful.encodes_dump
  encodes_ascii := canonical_faithful.encodes_ascii
  encodes_null := rfl
  encodes_integer _ := rfl
  encodes_array := canonical_faithful.encodes_array
  encodes_object := canonical_faithful.encodes_object

/-! ## Arrays -/

theorem print_items (x : Json) (xs : List Json) :
    print x ++ printItems xs = [','].intercalate (print x :: xs.map print) ++ [']'] := by
  induction xs generalizing x with
  | nil => rw [List.map_nil, List.intercalate_singleton, printItems]
  | cons y ys ih =>
    rw [List.map_cons, List.intercalate_cons_cons, List.append_assoc, ← ih y, printItems]
    simp

theorem print_array (xs : List Json) :
    print (.array xs) = '[' :: [','].intercalate (xs.map print) ++ [']'] := by
  cases xs with
  | nil => rfl
  | cons x xs =>
    show '[' :: (print x ++ printItems xs) = _
    rw [print_items]
    rfl

theorem arrayText_dump (xs : List Json) :
    arrayText (xs.map canonical.dump) = canonical.dump (.array xs) := by
  apply String.toList_injective
  have hmap : (xs.map canonical.dump).map String.toList = xs.map print := by
    rw [List.map_map]
    exact List.map_congr_left fun x _ => String.toList_ofList
  unfold arrayText
  rw [String.toList_append, String.toList_append, String.toList_intercalate, hmap]
  show _ = (String.ofList (print (.array xs))).toList
  rw [String.toList_ofList, print_array]
  simp

theorem bytes_append (s t : String) : bytes (s ++ t) = bytes s ++ bytes t := by
  unfold bytes
  rw [String.toList_append, List.map_append]

theorem bytes_intercalate (parts : List String) :
    bytes (",".intercalate parts) = [44].intercalate (parts.map bytes) := by
  induction parts with
  | nil => rfl
  | cons part parts ih =>
    cases parts with
    | nil => rw [String.intercalate_singleton, List.map_singleton, List.intercalate_singleton]
    | cons next rest =>
      rw [String.intercalate_cons_cons, bytes_append, bytes_append, ih, List.map_cons,
        List.map_cons, List.map_cons, List.intercalate_cons_cons]
      simp [bytes]

theorem bytes_arrayText (parts : List String) :
    bytes (arrayText parts) = 91 :: [44].intercalate (parts.map bytes) ++ [93] := by
  unfold arrayText
  rw [bytes_append, bytes_append, bytes_intercalate]
  simp [bytes]

theorem embeddable_print {j : Json} (hplain : plain j = true) :
    Embeddable (bytes (canonical.dump j)) := by
  have hbytes : ∀ b ∈ bytes (canonical.dump j), 32 ≤ b.toNat ∧ b.toNat < 128 := by
    intro b hb
    obtain ⟨c, hc, rfl⟩ := List.mem_map.mp hb
    have hc : c ∈ (String.ofList (print j)).toList := hc
    rw [String.toList_ofList] at hc
    obtain ⟨hlow, hhigh⟩ := printable_print j hplain c hc
    have hbyte : c.toNat.toUInt8.toNat = c.toNat := by
      rw [Nat.toUInt8, UInt8.toNat_ofNat']
      omega
    omega
  constructor
  · intro hmark
    have hmem : (239 : UInt8) ∈ bytes (canonical.dump j) := hmark.subset List.mem_cons_self
    exact absurd (hbytes 239 hmem).2 (by decide)
  · intro hzero
    exact absurd (hbytes 0 hzero).1 (by decide)

/-- The texts that are read are those that are written. -/
theorem strict_parts {parts : List String} {xs : List Json}
    (h : List.Forall₂ (fun part x => strict.parse (bytes part) = some x) parts xs) :
    parts.map bytes = (xs.map canonical.dump).map bytes ∧
      ∀ x ∈ xs, plain x = true ∧ ordered x = true ∧ x.canon = x := by
  induction h with
  | nil => exact ⟨rfl, fun x hx => absurd hx List.not_mem_nil⟩
  | cons hx hxs ih =>
    obtain ⟨hbytes, hcanon⟩ := ih
    rw [List.map_cons, List.map_cons, List.map_cons, hbytes, (strict_parse_iff.mp hx).2]
    exact ⟨rfl, List.forall_mem_cons.mpr ⟨canon_of_strict hx, hcanon⟩⟩

theorem strict_arrays : strict.Arrays where
  parse_arrayText {parts xs} h := by
    obtain ⟨hbytes, hcanon⟩ := strict_parts h
    have harray : bytes (arrayText parts) = bytes (canonical.dump (.array xs)) := by
      rw [bytes_arrayText, hbytes, ← bytes_arrayText, arrayText_dump]
    have hsame : (Json.array xs).canon = .array xs := by
      rw [Json.canon, Json.canons_eq_map, List.map_congr_left fun x hx => (hcanon x hx).2.2,
        List.map_id']
    refine iff_of_true ?_ ?_
    · rw [harray, strict_reads, hsame]
      · exact (plainItems_iff xs).mpr fun x hx => (hcanon x hx).1
      · exact orderedItems_of fun x hx => (hcanon x hx).2.1
    · intro part hpart
      have hmem : bytes part ∈ (xs.map canonical.dump).map bytes :=
        hbytes ▸ List.mem_map_of_mem hpart
      obtain ⟨s, hs, hdump⟩ := List.mem_map.mp hmem
      obtain ⟨x, hx, rfl⟩ := List.mem_map.mp hs
      rw [← hdump]
      exact embeddable_print (hcanon x hx).1
  embeddable_dump := embeddable_print
  parse_braces := strict_reads (j := .object []) rfl rfl

end CanonicalJson

end TruellmEngine.Lib

/-
  The part of llama.cpp the engine calls, by its documented behaviour: the KV memory of a
  context (`llama_memory_seq_rm`, `llama_memory_clear`, the cells a successful
  `llama_decode` adds) and the vocabulary queries. Which tokens a sampler draws, and
  whether a decode succeeds, is left to the environment of each model.
-/
import TruellmEngine.Engine.Interface
import TruellmEngine.Lib.SeqStore

namespace TruellmEngine

open Lib

/-! ## KV memory -/

/-- The token in each cell, by sequence id and position. -/
abbrev KvCache := Int → Nat → Option Token

def KvCache.empty : KvCache := fun _ _ => none

/-- `llama_memory_seq_rm`: remove the cells of `seqId` at positions `p0 ≤ p < p1`. A negative
    sequence id matches every sequence, a negative bound is no bound. -/
def llamaMemorySeqRm (kv : KvCache) (seqId p0 p1 : Int) : KvCache :=
  fun s p =>
    if (seqId < 0 ∨ s = seqId) ∧ p0 ≤ (p : Int) ∧ (p1 < 0 ∨ (p : Int) < p1) then none
    else kv s p

/-- One column of a `llama_batch`: token, position, its one sequence id, the logits flag. -/
structure BatchEntry where
  token : Token
  pos : Nat
  seqId : Int
  logits : Bool
  deriving DecidableEq, Repr

def BatchEntry.toCell (e : BatchEntry) : Int × Token × Nat := (e.seqId, e.token, e.pos)

/-- The cells after a successful `llama_decode` of the batch. -/
def llamaDecode (kv : KvCache) (batch : List BatchEntry) : KvCache :=
  writeAll kv (batch.map BatchEntry.toCell)

/-- Removing from position `n` on keeps the first `n` cells. -/
theorem llamaMemorySeqRm_holds {kv : KvCache} {s : Nat} {xs : List Token}
    (h : Holds (kv s) xs) (n : Nat) :
    Holds (llamaMemorySeqRm kv s n (-1) s) (xs.take n) := by
  intro p
  rw [← h.truncate n p]
  simp [llamaMemorySeqRm]

theorem llamaMemorySeqRm_all (kv : KvCache) (s : Nat) :
    Holds (llamaMemorySeqRm kv s (-1) (-1) s) [] := by
  intro p
  simp [llamaMemorySeqRm]

theorem llamaMemorySeqRm_other {s t : Nat} (h : t ≠ s) (kv : KvCache) (p0 p1 : Int) :
    llamaMemorySeqRm kv s p0 p1 t = kv t := by
  funext p
  have hs : ¬ ((s : Int) < 0 ∨ (t : Int) = s) := by omega
  simp only [llamaMemorySeqRm, hs, false_and, if_false]

/-! ## Vocabulary -/

/-- `llama_vocab`: the end-of-generation tokens, the end-of-sequence token, whether the
    vocabulary has a type, and the text of a token with or without special tokens. -/
structure LlamaVocab where
  isEog : Token → Bool
  eos : Token
  typed : Bool
  piece : Token → Bool → Bytes

/-- `llama_token_to_piece`: the length written, negative when the buffer is too small. -/
def llamaTokenToPiece (v : LlamaVocab) (tok : Token) (size : Nat) (special : Bool) :
    Int × Bytes :=
  let p := v.piece tok special
  if p.length ≤ size then (p.length, p) else (-(p.length : Int), [])

/-- The text of one token through the 256-byte buffer every decode loop uses. -/
def pieceText (v : LlamaVocab) (tok : Token) (special : Bool) : Bytes :=
  let r := llamaTokenToPiece v tok 256 special
  if 0 < r.1 then r.2 else []

end TruellmEngine
